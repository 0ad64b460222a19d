import QuadAsm.Proofs.Token.First

/-! The longest match.

`longest?` finds a match that no match at the same place exceeds (`le_longest?`). A text of
some kind is this match whenever it is followed by a character the kind does not go on with
(`longest?_of_matches`): whatever else starts there starts with the same character, so it
is of the same family and stops at the same place. -/
namespace QuadAsm.Token

/-- Neither the match at hand nor an earlier one is lost. -/
theorem le_longer (best : Option (Kind × Nat)) (kind : Kind) (length : Nat) :
    ∃ winner reach, longer best kind length = some (winner, reach) ∧ length ≤ reach ∧
      ∀ earlier before, best = some (earlier, before) → before ≤ reach := by
  cases best with
  | none => exact ⟨kind, length, rfl, Nat.le_refl _, nofun⟩
  | some found =>
    obtain ⟨earlier, before⟩ := found
    simp only [longer]
    split
    · exact ⟨kind, length, rfl, Nat.le_refl _, by rintro _ _ ⟨⟩; omega⟩
    · exact ⟨earlier, before, rfl, by omega, by rintro _ _ ⟨⟩; exact Nat.le_refl _⟩

theorem le_longestOf? {cs : List Char} {kinds : List Kind} {best : Option (Kind × Nat)}
    {kind : Kind} {length : Nat} (h : best = some (kind, length) ∨
      kind ∈ kinds ∧ kind.pattern.munch? cs = some length) :
    ∃ winner reach, longestOf? cs kinds best = some (winner, reach) ∧ length ≤ reach := by
  induction kinds generalizing best kind length with
  | nil =>
    rcases h with rfl | ⟨member, _⟩
    · exact ⟨kind, length, rfl, Nat.le_refl _⟩
    · cases member
  | cons next kinds ih =>
    rw [longestOf?, List.foldl_cons, ← longestOf?]
    rcases h with rfl | ⟨member, munched⟩
    · cases next.pattern.munch? cs with
      | none => exact ih (.inl rfl)
      | some reach =>
        obtain ⟨winner, further, won, _, kept⟩ := le_longer (some (kind, length)) next reach
        obtain ⟨last, furthest, found, le⟩ := ih (.inl won)
        exact ⟨last, furthest, found, Nat.le_trans (kept _ _ rfl) le⟩
    · rcases List.mem_cons.mp member with rfl | member
      · rw [munched]
        obtain ⟨winner, further, won, le, _⟩ := le_longer best kind length
        obtain ⟨last, furthest, found, le'⟩ := ih (.inl won)
        exact ⟨last, furthest, found, Nat.le_trans le le'⟩
      · exact ih (.inr ⟨member, munched⟩)

/-- Where a text of some kind starts there is a longest match, and it is as long at least. -/
theorem le_longest? {kind : Kind} {w : List Char} (h : kind.pattern.Matches w)
    (rest : List Char) :
    ∃ winner reach, longest? (w ++ rest) = some (winner, reach) ∧ w.length ≤ reach := by
  obtain ⟨length, munched, le⟩ := Pattern.le_munch?_of_matches kind.proper h rest
  obtain ⟨winner, reach, found, le'⟩ := le_longestOf? (.inr ⟨kind.mem_all, munched⟩)
  exact ⟨winner, reach, found, Nat.le_trans le le'⟩

/-- No token goes past a character that its family does not go on with. -/
theorem eq_nil_of_matches_append {kind other : Kind} {w more : List Char}
    (h : kind.pattern.Matches w) (h' : other.pattern.Matches (w ++ more))
    (stop : ∀ d ∈ more.head?, kind.goesOn d = false) : more = [] := by
  obtain ⟨c, cs, rfl, starts, _⟩ := Kind.eq_cons_of_matches h
  obtain ⟨_, _, ⟨⟩, starts', later⟩ := Kind.eq_cons_of_matches h'
  cases more with
  | nil => rfl
  | cons d more =>
    have on : kind.goesOn d = true := by
      rw [← Kind.goesOn_family, Kind.family_of_starts starts starts', Kind.goesOn_family]
      exact later d (by simp)
    rw [stop d rfl] at on
    cases on

theorem longest?_of_matches {kind : Kind} {w rest : List Char} (h : kind.pattern.Matches w)
    (stop : ∀ d ∈ rest.head?, kind.goesOn d = false) :
    longest? (w ++ rest) = some (kind, w.length) := by
  obtain ⟨winner, reach, found, le⟩ := le_longest? h rest
  have h' := Pattern.matches_of_munch? (munch?_of_longest? found)
  rw [List.take_append, List.take_of_length_le le] at h'
  have nothing : rest.take (reach - w.length) = [] :=
    eq_nil_of_matches_append h h' fun d hd => stop d (by
      rw [List.head?_take] at hd
      split at hd
      · cases hd
      · exact hd)
  rw [nothing, List.append_nil] at h'
  have bound := (longest?_le found).2
  have short : reach = w.length := by
    rcases List.take_eq_nil_iff.mp nothing with zero | rfl
    · omega
    · rw [List.append_nil] at bound
      omega
  rw [found, short, Kind.eq_of_matches h h']

end QuadAsm.Token
