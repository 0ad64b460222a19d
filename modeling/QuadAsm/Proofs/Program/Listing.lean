import Mathlib.Data.List.Basic
import QuadAsm.Program.Listing
import QuadAsm.Proofs.Instruction.Printed

/-! The listing, from the labels in any order, and without its indexes.

A listing can also be made from the labels in whatever order a table lists them: sort them by
place and name, go through the indexes, and at each take off the front those that point there.
That is the same listing (`listingOf_eq_listing`), for at each index the same names are left, in
one order. What a listing has beyond a program text is the column of indexes; without it
(`unnumbered`) only labels and instructions are left on the lines. -/
namespace QuadAsm.Program

/-! ### Index by index -/

/-- What points at an index is listed there. -/
theorem lines_eq (program : Program) : program.lines =
    (List.range (program.size + 1)).flatMap fun index =>
      program.linesAt (namesAt program.labels.toList index) index := by
  have table : (namesTable program.size program.labels.toList).toList.zipIdx =
      (List.range (program.size + 1)).map fun index =>
        (namesAt program.labels.toList index, index) := by
    refine List.ext_getElem? fun index => ?_
    rw [List.getElem?_zipIdx, Array.getElem?_toList, List.getElem?_map]
    by_cases bound : index ≤ program.size
    · rw [getElem?_namesTable _ bound, List.getElem?_range (Nat.lt_succ_of_le bound)]
      simp
    · rw [Array.getElem?_eq_none (by rw [size_namesTable]; omega),
        List.getElem?_eq_none (by rw [List.length_range]; omega)]
      rfl
  rw [lines, table, List.flatMap_map]

/-! ### From any enumeration -/

/-- By place, and by name among those at one place. -/
def labelOrder : String × Nat → String × Nat → Ordering :=
  compareLex (compareOn Prod.snd) (compareOn Prod.fst)

def sortedLabels (labels : List (String × Nat)) : List (String × Nat) :=
  labels.mergeSort fun a b => (labelOrder a b).isLE

/-- The lines of these indexes, where each takes from the front of the labels those that point
at it. -/
def linesFrom (program : Program) (labels : List (String × Nat)) : List Nat → List String
  | [] => []
  | index :: later =>
    program.linesAt ((labels.takeWhile (·.2 == index)).map Prod.fst) index ++
      program.linesFrom (labels.dropWhile (·.2 == index)) later

/-- The listing from the labels in this order. -/
def listingOf (program : Program) (labels : List (String × Nat)) : String :=
  String.join ((program.linesFrom (sortedLabels labels) (List.range (program.size + 1))).map
    (· ++ "\n"))

variable {program : Program} {labels : List (String × Nat)} {index : Nat}

theorem isLE_labelOrder_iff {a b : String × Nat} : (labelOrder a b).isLE = true ↔
    a.2 < b.2 ∨ a.2 = b.2 ∧ (compare a.1 b.1).isLE = true := by
  rw [labelOrder, compareLex, Ordering.isLE_then_iff_or, compareOn, compareOn, Nat.compare_eq_lt,
    Nat.compare_eq_eq]

instance : Std.TransCmp labelOrder := inferInstanceAs (Std.TransCmp (compareLex _ _))

theorem pairwise_sortedLabels (labels : List (String × Nat)) :
    (sortedLabels labels).Pairwise fun a b => (labelOrder a b).isLE = true := by
  refine List.pairwise_mergeSort (fun _ _ _ => Std.TransCmp.isLE_trans) (fun a b => ?_) labels
  have swapped : labelOrder b a = (labelOrder a b).swap := Std.OrientedCmp.eq_swap
  rw [swapped]
  cases labelOrder a b <;> rfl

theorem namesAt_cons (label : String × Nat) (labels : List (String × Nat)) (index : Nat) :
    namesAt (label :: labels) index =
      if label.2 = index then label.1 :: namesAt labels index else namesAt labels index := by
  rw [namesAt, List.filterMap_cons]
  split <;> split <;> simp_all [namesAt]

theorem takeWhile_place (sorted : labels.Pairwise (·.2 ≤ ·.2))
    (behind : ∀ label ∈ labels, index ≤ label.2) :
    (labels.takeWhile (·.2 == index)).map Prod.fst = namesAt labels index := by
  induction labels with
  | nil => rfl
  | cons label labels ih =>
    obtain ⟨first, sorted⟩ := List.pairwise_cons.mp sorted
    by_cases here : label.2 = index
    · rw [List.takeWhile_cons_of_pos (by simpa using here), List.map_cons, namesAt_cons,
        if_pos here, ih sorted (List.forall_mem_cons.mp behind).2]
    · rw [List.takeWhile_cons_of_neg (by simpa using here)]
      refine (List.eq_nil_iff_forall_not_mem.mpr fun name member => ?_).symm
      have le := behind label List.mem_cons_self
      rcases List.mem_cons.mp (mem_namesAt.mp member) with rfl | later
      · exact here rfl
      · have le' : label.2 ≤ index := first _ later
        omega

theorem dropWhile_place (sorted : labels.Pairwise (·.2 ≤ ·.2))
    (behind : ∀ label ∈ labels, index ≤ label.2) :
    ∀ label ∈ labels.dropWhile (·.2 == index), index < label.2 := by
  induction labels with
  | nil => nofun
  | cons label labels ih =>
    obtain ⟨first, sorted⟩ := List.pairwise_cons.mp sorted
    by_cases here : label.2 = index
    · rw [List.dropWhile_cons_of_pos (by simpa using here)]
      exact ih sorted (List.forall_mem_cons.mp behind).2
    · rw [List.dropWhile_cons_of_neg (by simpa using here)]
      have lt : index < label.2 :=
        Nat.lt_of_le_of_ne (behind label List.mem_cons_self) (Ne.symm here)
      exact List.forall_mem_cons.mpr ⟨lt, fun next member => Nat.lt_of_lt_of_le lt (first next member)⟩

/-- What is taken for one index points at no other. -/
theorem namesAt_dropWhile {other : Nat} (apart : other ≠ index) :
    namesAt (labels.dropWhile (·.2 == index)) other = namesAt labels other := by
  have taken : namesAt (labels.takeWhile (·.2 == index)) other = [] := by
    refine List.eq_nil_iff_forall_not_mem.mpr fun name member => apart ?_
    simpa using List.all_eq_true.mp List.all_takeWhile _ (mem_namesAt.mp member)
  rw [← List.nil_append (namesAt _ other), ← taken, namesAt, namesAt, ← List.filterMap_append,
    List.takeWhile_append_dropWhile, namesAt]

/-- Taken from the front of sorted labels, every index has the names that point at it. -/
theorem linesFrom_range' {first count : Nat} (sorted : labels.Pairwise (·.2 ≤ ·.2))
    (behind : ∀ label ∈ labels, first ≤ label.2) :
    program.linesFrom labels (List.range' first count) =
      (List.range' first count).flatMap fun index =>
        program.linesAt (namesAt labels index) index := by
  induction count generalizing first labels with
  | zero => rfl
  | succ count ih =>
    -- Only labels further on are left for the indexes that follow.
    have later := dropWhile_place sorted behind
    rw [List.range'_succ, linesFrom, List.flatMap_cons, takeWhile_place sorted behind,
      ih (sorted.sublist (List.dropWhile_sublist _)) later]
    refine congrArg _ (List.flatMap_congr fun index member => ?_)
    have apart := (List.mem_range'_1.mp member).1
    rw [namesAt_dropWhile (by omega)]

/-- Names come in the order of the labels. -/
theorem pairwise_namesAt
    (sorted : labels.Pairwise fun a b => a.2 = b.2 → (compare a.1 b.1).isLE = true) :
    (namesAt labels index).Pairwise fun a b => (compare a b).isLE = true := by
  refine sorted.filterMap _ fun a b ordered name here other there => ?_
  rw [Option.ite_none_right_eq_some] at here there
  obtain ⟨place, ⟨⟩⟩ := here
  obtain ⟨place', ⟨⟩⟩ := there
  exact ordered (place.trans place'.symm)

/-- Sorting leaves one order of the names at an index, the table's own. -/
theorem namesAt_sortedLabels (same : labels.Perm program.labels.toList) :
    namesAt (sortedLabels labels) index = namesAt program.labels.toList index := by
  have antisymm (a b : String) (h : (compare a b).isLE = true) (h' : (compare b a).isLE = true) :
      a = b := Std.LawfulEqOrd.eq_of_compare (Std.OrientedCmp.isLE_antisymm h h')
  -- Both lists are in the order of names, and they have the same names.
  refine List.Perm.eq_of_pairwise (fun a b _ _ => antisymm a b) (pairwise_namesAt ?_)
    (pairwise_namesAt ?_) ?_
  · refine (pairwise_sortedLabels labels).imp fun ordered here => ?_
    rcases isLE_labelOrder_iff.mp ordered with before | ⟨-, names⟩
    · omega
    · exact names
  · refine Std.ExtTreeMap.ordered_keys_toList.imp fun ordered _ => ?_
    rw [ordered]
    rfl
  · exact ((List.mergeSort_perm _ _).trans same).filterMap _

/-- The order in which a table lists its labels does not show in the listing. -/
theorem listingOf_eq_listing (same : labels.Perm program.labels.toList) :
    program.listingOf labels = program.listing := by
  have places : (sortedLabels labels).Pairwise (·.2 ≤ ·.2) := by
    refine (pairwise_sortedLabels labels).imp fun ordered => ?_
    rcases isLE_labelOrder_iff.mp ordered with before | ⟨here, -⟩
    · exact Nat.le_of_lt before
    · exact Nat.le_of_eq here
  have lines : program.linesFrom (sortedLabels labels) (List.range (program.size + 1)) =
      program.lines := by
    rw [lines_eq, List.range_eq_range', linesFrom_range' places fun _ _ => Nat.zero_le _]
    exact List.flatMap_congr fun index _ => by rw [namesAt_sortedLabels same]
  rw [listingOf, lines, listing]

/-! ### Without the indexes -/

/-- The line without what stands in front of an instruction: spaces, the digits of the index and
four spaces. A line that starts with neither space nor digit stays. -/
def unnumberedLine (line : List Char) : List Char :=
  if line.head?.any fun c => c == ' ' || c.isDigit then
    ((line.dropWhile (· == ' ')).dropWhile Char.isDigit).drop 4
  else line

/-- A listing without the indexes, line by line. -/
def unnumbered (listing : String) : String :=
  String.ofList (['\n'].intercalate ((listing.toList.splitOn '\n').map unnumberedLine))

/-- These lines, each with its end. -/
def endLines (lines : List (List Char)) : List Char := lines.flatMap (· ++ ['\n'])

theorem intercalate_lines (lines : List (List Char)) :
    ['\n'].intercalate (lines ++ [[]]) = endLines lines := by
  induction lines with
  | nil => rfl
  | cons line lines ih =>
    rw [List.cons_append, List.intercalate_cons_of_ne_nil (by simp), ih]
    rfl

theorem toList_unnumbered {lines : List (List Char)} (single : ∀ line ∈ lines, '\n' ∉ line) :
    (unnumbered (String.ofList (endLines lines))).toList = endLines (lines.map unnumberedLine) := by
  have split : (endLines lines).splitOn '\n' = lines ++ [[]] := by
    rw [← intercalate_lines]
    refine List.splitOn_intercalate '\n' ?_ (by simp)
    exact List.forall_mem_append.mpr ⟨single, by simp⟩
  rw [unnumbered, String.toList_ofList, String.toList_ofList, split, List.map_append]
  exact intercalate_lines _

theorem toList_spaces (count : Nat) : (Text.spaces count).toList = List.replicate count ' ' := by
  rw [Text.spaces, String.pushn_eq_repeat_push]
  induction count with
  | zero => rfl
  | succ count ih => rw [Nat.repeat, String.toList_push, ih, List.replicate_succ']

theorem unnumberedLine_column {gap digits rest : List Char} (blank : ∀ c ∈ gap, c = ' ')
    (all : ∀ c ∈ digits, c.isDigit = true) (nonempty : digits ≠ []) :
    unnumberedLine (gap ++ (digits ++ (' ' :: ' ' :: ' ' :: ' ' :: rest))) = rest := by
  obtain ⟨d, ds, rfl⟩ := List.exists_cons_of_ne_nil nonempty
  have digit := all d List.mem_cons_self
  have apart : ¬(d == ' ') = true := by
    rw [beq_iff_eq]
    rintro rfl
    exact absurd digit (by decide)
  have starts : (gap ++ (d :: ds ++ (' ' :: ' ' :: ' ' :: ' ' :: rest))).head?.any
      (fun c => c == ' ' || c.isDigit) = true := by
    cases gap with
    | nil => simp [digit]
    | cons c gap => simp [blank c List.mem_cons_self]
  rw [unnumberedLine, if_pos starts, List.dropWhile_append_of_pos (by simpa using blank),
    List.cons_append, List.dropWhile_cons_of_neg (p := (· == ' ')) apart, ← List.cons_append,
    List.dropWhile_append_of_pos all]
  rfl

/-- A column of the index, four spaces, and the instruction. -/
theorem toList_instructionLine (index : Nat) (i : Instruction) :
    (instructionLine index i).toList = List.replicate (4 - (toString index).length) ' ' ++
      (index.repr.toList ++ (' ' :: ' ' :: ' ' :: ' ' :: i.text.toList)) := by
  simp only [instructionLine, Text.alignRight, String.toList_append, toList_spaces,
    List.append_assoc]
  rfl

theorem unnumberedLine_instructionLine (index : Nat) (i : Instruction) :
    unnumberedLine (instructionLine index i).toList = i.text.toList := by
  rw [toList_instructionLine]
  exact unnumberedLine_column (fun _ => List.eq_of_mem_replicate) Numeral.isDigit_of_mem_repr
    (Numeral.repr_ne_nil index)

theorem unnumberedLine_labelLine {name : String} (named : Text.isName name.toList = true) :
    unnumberedLine (labelLine name).toList = (labelLine name).toList := by
  refine if_neg ?_
  rw [labelLine, String.toList_append]
  cases text : name.toList with
  | nil =>
    rw [text] at named
    cases named
  | cons c cs =>
    rw [text] at named
    have start : Text.isNameStart c = true := (Bool.and_eq_true_iff.mp named).1
    have space : c ≠ ' ' := by
      rintro rfl
      exact absurd start (by decide)
    have digit : ¬c.isDigit = true := by
      rw [Text.isNameStart_iff] at start
      rw [Text.isDigit_iff]
      omega
    simp [space, digit]

end QuadAsm.Program
