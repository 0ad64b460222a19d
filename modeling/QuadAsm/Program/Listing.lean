import QuadAsm.Program
import QuadAsm.Text.Padding

/-! The listing of a program: every instruction behind its index, and before it, each
on a line of its own, the labels that point at it, sorted by name. Labels behind the
last instruction end the listing. -/
namespace QuadAsm.Program

/-- The names among these labels that point at an index. -/
def namesAt (labels : List (String × Nat)) (index : Nat) : List String :=
  labels.filterMap fun (name, place) => if place = index then some name else none

/-- For every index up to and including `size` the names that point at it, gathered in
one pass over the labels. -/
def namesTable (size : Nat) (labels : List (String × Nat)) : Array (List String) :=
  labels.foldr (fun (name, place) table => table.modify place (name :: ·))
    (Array.replicate (size + 1) [])

def labelLine (name : String) : String := name ++ ":"

/-- The index in a column of four, four spaces, the instruction. -/
def instructionLine (index : Nat) (i : Instruction) : String :=
  Text.alignRight 4 (toString index) ++ Text.spaces 4 ++ i.text

/-- What the listing shows for an index with these names: the labels, then the
instruction if there is one. -/
def linesAt (program : Program) (names : List String) (index : Nat) : List String :=
  names.map labelLine ++ (program.get? index).toList.map (instructionLine index)

/-- The lines of the listing. The label table lists its names in order. -/
def lines (program : Program) : List String :=
  let table := namesTable program.size program.labels.toList
  table.toList.zipIdx.flatMap fun (names, index) => program.linesAt names index

def listing (program : Program) : String :=
  String.join (program.lines.map (· ++ "\n"))

theorem mem_namesAt {labels : List (String × Nat)} {index : Nat} {name : String} :
    name ∈ namesAt labels index ↔ (name, index) ∈ labels := by
  simp only [namesAt, List.mem_filterMap, Prod.exists]
  constructor
  · rintro ⟨other, place, member, h⟩
    split at h
    · cases h
      simp_all
    · cases h
  · intro member
    exact ⟨name, index, member, by simp⟩

theorem size_namesTable (size : Nat) (labels : List (String × Nat)) :
    (namesTable size labels).size = size + 1 := by
  induction labels with
  | nil => simp [namesTable]
  | cons label labels ih => simpa [namesTable] using ih

/-- The table has at every index the names that point there. -/
theorem getElem?_namesTable {size index : Nat} (labels : List (String × Nat))
    (h : index ≤ size) : (namesTable size labels)[index]? = some (namesAt labels index) := by
  induction labels with
  | nil => simp [namesTable, namesAt, Nat.lt_succ_of_le h]
  | cons label labels ih =>
    obtain ⟨name, place⟩ := label
    simp only [namesTable, namesAt, List.foldr_cons, List.filterMap_cons] at ih ⊢
    rw [Array.getElem?_modify, ih]
    by_cases here : place = index <;> simp [here]

end QuadAsm.Program
