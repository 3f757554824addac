import ValueLattice.Element.Rounded
import ValueLattice.Proofs.FloatingSets
import ValueLattice.Proofs.Rounding

/-!
# The members of sets of floating-point numbers

* `exists_meet?_contains_iff`: the members of a meet are the common members;
* `contains_join`: a join has the members of both sets, `contains_of_contains_join`: and no others
  where the union of the sets `HasForm`;
* `negate?_negate?`, `join_negate?`, `meet?_negate?`: complements;
* `OfWidth`: the numbers that a set is made of are numbers of a width, which the operations keep; so
  `roundedJoin_eq`, `roundedMeet?_eq` and `roundedNegate?_eq`: their rounding changes nothing.
-/

namespace ValueLattice.FloatingSet

/-! ## Meets -/

/-- A meet has the common members, and there is none without common members. -/
theorem exists_meet?_contains_iff {s t : FloatingSet} (hs : s.Valid) (ht : t.Valid) {x : Double} :
    (∃ u, s.meet? t = some u ∧ u.contains x = true) ↔
      s.contains x = true ∧ t.contains x = true := by
  constructor
  · rintro ⟨u, hu, hx⟩
    obtain ⟨hsu, htu⟩ := covers_meet? hs ht hu
    exact ⟨contains_of_covers hsu hx, contains_of_covers htu hx⟩
  · rintro ⟨hsx, htx⟩
    -- A set covers a single number exactly if it contains it.
    exact exists_meet?_covers hs ht (show s.covers (only x) = true from hsx) htx

/-! ## Joins -/

/-- Whether the union of two sets has a form of its own: one of them excludes finitely many numbers
or covers the other one, or they are single zeros. -/
def HasForm (s t : FloatingSet) : Prop :=
  (∃ xs, s = allBut xs) ∨ (∃ ys, t = allBut ys) ∨ s.covers t = true ∨ t.covers s = true ∨
    ∃ x y, s = only x ∧ t = only y ∧ x.isZero = true ∧ y.isZero = true

theorem contains_join {s t : FloatingSet} (hs : s.Valid) (ht : t.Valid) {x : Double}
    (hx : s.contains x = true ∨ t.contains x = true) : (s.join t).contains x = true := by
  obtain ⟨hjs, hjt⟩ := join_covers hs ht
  exact hx.elim (contains_of_covers hjs) (contains_of_covers hjt)

/-- An excluded number that the other set does not contain either stays excluded. -/
theorem contains_of_contains_excluding {xs : List Double} {t : FloatingSet} {x : Double}
    (hx : (excluding (xs.filter (!t.contains ·))).contains x = true) :
    (allBut xs).contains x = true ∨ t.contains x = true := by
  by_contra hnot
  obtain ⟨hxs, hxt⟩ : (allBut xs).contains x = false ∧ t.contains x = false := by
    simpa only [not_or, Bool.not_eq_true] using hnot
  obtain ⟨y, hy, hyx⟩ := contains_allBut_eq_false.1 hxs
  have hyt : t.contains y = false := (contains_congr hyx).trans hxt
  have hexcluded : y ∈ xs.filter (!t.contains ·) := List.mem_filter.2 ⟨hy, by rw [hyt]; rfl⟩
  rw [contains_excluding_eq_false.2 ⟨y, hexcluded, hyx⟩] at hx
  exact Bool.noConfusion hx

theorem contains_only_of_eq {x y : Double} (h : y = x) : (only x).contains y = true := by
  rw [h]
  exact Double.same_self x

/-- Two zeros that differ are all zeros. -/
theorem contains_of_zeros {x y z : Double} (hx : x.isZero = true) (hy : y.isZero = true)
    (hz : z.isZero = true) (hxy : ¬(only x).covers (only y) = true) :
    (only x).contains z = true ∨ (only y).contains z = true := by
  rcases Double.isZero_iff.1 hx with rfl | rfl <;> rcases Double.isZero_iff.1 hy with rfl | rfl
  · exact absurd (covers_self _) hxy
  · exact (Double.isZero_iff.1 hz).imp contains_only_of_eq contains_only_of_eq
  · exact (Double.isZero_iff.1 hz).symm.imp contains_only_of_eq contains_only_of_eq
  · exact absurd (covers_self _) hxy

theorem contains_of_contains_joinApart {s t : FloatingSet} (hform : s.HasForm t)
    (hst : ¬s.covers t = true) (hts : ¬t.covers s = true) {x : Double}
    (hx : (joinApart s t).contains x = true) : s.contains x = true ∨ t.contains x = true := by
  rcases hform with ⟨xs, rfl⟩ | ⟨ys, rfl⟩ | hcovers | hcovers | ⟨y, z, rfl, rfl, hy, hz⟩
  · exact contains_of_contains_excluding hx
  · cases s with
    | any => exact .inl rfl
    | allBut xs => exact contains_of_contains_excluding hx
    | zeros => exact (contains_of_contains_excluding hx).symm
    | only y => exact (contains_of_contains_excluding hx).symm
  · exact absurd hcovers hst
  · exact absurd hcovers hts
  · rw [joinApart, hy, hz] at hx
    exact contains_of_zeros hy hz hx hst

/-- Where the union of two sets has a form, their join has no other members. -/
theorem contains_of_contains_join {s t : FloatingSet} (hform : s.HasForm t) {x : Double}
    (hx : (s.join t).contains x = true) : s.contains x = true ∨ t.contains x = true := by
  unfold join at hx
  split at hx
  · exact .inl hx
  · next hst =>
    split at hx
    · exact .inr hx
    · next hts => exact contains_of_contains_joinApart hform hst hts hx

/-! ## Complements -/

theorem excluding_zeros : excluding Double.zeros = allBut [.negativeZero, .zero] := by decide

/-- Two excluded zeros are listed in the order of their keys. -/
theorem eq_of_valid_zeros {x y : Double} (h : (allBut [x, y]).Valid) (hx : x.isZero = true)
    (hy : y.isZero = true) : x = .negativeZero ∧ y = .zero := by
  have hbefore : Text.before x.key y.key = true := by simpa using h.2
  rcases Double.isZero_iff.1 hx with rfl | rfl <;> rcases Double.isZero_iff.1 hy with rfl | rfl
  · exact absurd hbefore (by decide)
  · exact absurd hbefore (by decide)
  · exact ⟨rfl, rfl⟩
  · exact absurd hbefore (by decide)

/-- Only single numbers, the zeros, and all numbers but these have a complement. -/
theorem negate?_cases {s u : FloatingSet} (hs : s.Valid) (h : s.negate? = some u) :
    (∃ x, s = only x ∧ u = allBut [x]) ∨ (∃ x, s = allBut [x] ∧ u = only x) ∨
      (s = zeros ∧ u = allBut [.negativeZero, .zero]) ∨
      (s = allBut [.negativeZero, .zero] ∧ u = zeros) := by
  unfold negate? at h
  split at h
  · exact nomatch h
  · rw [excluding_zeros] at h
    exact .inr (.inr (.inl ⟨rfl, (Option.some.inj h).symm⟩))
  · next x => exact .inl ⟨x, rfl, (Option.some.inj h).symm⟩
  · next x => exact .inr (.inl ⟨x, rfl, (Option.some.inj h).symm⟩)
  · next x y =>
    split at h
    · next hzeros =>
      obtain ⟨hx, hy⟩ := Bool.and_eq_true_iff.1 hzeros
      obtain ⟨rfl, rfl⟩ := eq_of_valid_zeros hs hx hy
      exact .inr (.inr (.inr ⟨rfl, (Option.some.inj h).symm⟩))
    · exact nomatch h
  · exact nomatch h

theorem negate?_negate? {s u : FloatingSet} (hs : s.Valid) (h : s.negate? = some u) :
    u.negate? = some s := by
  rcases negate?_cases hs h with ⟨x, rfl, rfl⟩ | ⟨x, rfl, rfl⟩ | ⟨rfl, rfl⟩ | ⟨rfl, rfl⟩
  · rfl
  · rfl
  · rfl
  · exact congrArg some excluding_zeros

theorem join_negate? {s u : FloatingSet} (hs : s.Valid) (h : s.negate? = some u) :
    s.join u = any := by
  rcases negate?_cases hs h with ⟨x, rfl, rfl⟩ | ⟨x, rfl, rfl⟩ | ⟨rfl, rfl⟩ | ⟨rfl, rfl⟩
  · simp [join, joinApart, covers, contains, excluding]
  · simp [join, joinApart, covers, contains, excluding]
  · decide
  · decide

theorem meet?_negate? {s u : FloatingSet} (hs : s.Valid) (h : s.negate? = some u) :
    s.meet? u = none := by
  rcases negate?_cases hs h with ⟨x, rfl, rfl⟩ | ⟨x, rfl, rfl⟩ | ⟨rfl, rfl⟩ | ⟨rfl, rfl⟩
  · simp [meet?, meetApart?, covers, contains]
  · simp [meet?, meetApart?, covers, contains]
  · decide
  · decide

/-! ## Numbers of a width -/

/-- The numbers that a set is made of. -/
def numbers : FloatingSet → List Double
  | only x => [x]
  | allBut xs => xs
  | _ => []

/-- A set is made of numbers of a width: rounding leaves them alone. -/
def OfWidth (w : FloatingWidth) (s : FloatingSet) : Prop :=
  ∀ x ∈ s.numbers, w.round x = x

variable {w : FloatingWidth}

theorem ofWidth_of_numbers_eq_nil {s : FloatingSet} (h : s.numbers = []) : s.OfWidth w :=
  fun _ hx => absurd (h ▸ hx) List.not_mem_nil

theorem mem_of_mem_numbers_excluding {xs : List Double} {x : Double}
    (hx : x ∈ (excluding xs).numbers) : x ∈ xs := by
  unfold excluding at hx
  split at hx
  · exact absurd hx List.not_mem_nil
  · next hl =>
    have hsorted : x ∈ Text.sortByText Double.key xs := hl ▸ hx
    exact Text.mem_of_mem_sortByText hsorted

theorem ofWidth_excluding {xs : List Double} (h : ∀ x ∈ xs, w.round x = x) :
    (excluding xs).OfWidth w :=
  fun x hx => h x (mem_of_mem_numbers_excluding hx)

theorem ofWidth_only (x : Double) : (only (w.round x)).OfWidth w := by
  intro y hy
  rw [List.mem_singleton.1 hy, w.round_round]

theorem ofWidth_filter {xs : List Double} (h : (allBut xs).OfWidth w) (p : Double → Bool) :
    ∀ x ∈ xs.filter p, w.round x = x :=
  fun x hx => h x (List.mem_filter.1 hx).1

theorem ofWidth_append {xs ys : List Double} (hx : (allBut xs).OfWidth w)
    (hy : (allBut ys).OfWidth w) : ∀ x ∈ xs ++ ys, w.round x = x :=
  fun x h => (List.mem_append.1 h).elim (hx x) (hy x)

theorem round_zeros : ∀ x ∈ Double.zeros, w.round x = x := by
  intro x hx
  refine w.round_of_isZero (Double.isZero_iff.2 ?_)
  simpa [Double.zeros] using hx

theorem ofWidth_join {s t : FloatingSet} (hs : s.OfWidth w) (ht : t.OfWidth w) :
    (s.join t).OfWidth w := by
  unfold join
  split
  · exact hs
  · split
    · exact ht
    · unfold joinApart
      split
      · exact ofWidth_excluding (ofWidth_filter hs _)
      · exact ofWidth_excluding (ofWidth_filter ht _)
      · split <;> exact ofWidth_of_numbers_eq_nil rfl
      · exact ofWidth_of_numbers_eq_nil rfl

theorem ofWidth_zerosOf? {s u : FloatingSet} (h : zerosOf? s = some u) : u.OfWidth w := by
  rcases zerosOf?_eq_some h with ⟨x, rfl, hzero, _⟩ | ⟨rfl, _⟩
  · intro y hy
    rw [List.mem_singleton.1 hy, w.round_of_isZero hzero]
  · exact ofWidth_of_numbers_eq_nil rfl

theorem ofWidth_meet? {s t u : FloatingSet} (hs : s.OfWidth w) (ht : t.OfWidth w)
    (h : s.meet? t = some u) : u.OfWidth w := by
  unfold meet? at h
  split at h
  · exact Option.some.inj h ▸ ht
  · split at h
    · exact Option.some.inj h ▸ hs
    · unfold meetApart? at h
      split at h
      · exact Option.some.inj h ▸ ofWidth_excluding (ofWidth_append hs ht)
      · exact ofWidth_zerosOf? h
      · exact ofWidth_zerosOf? h
      · exact nomatch h

theorem ofWidth_negate? {s u : FloatingSet} (hs : s.OfWidth w) (h : s.negate? = some u) :
    u.OfWidth w := by
  unfold negate? at h
  split at h
  · exact nomatch h
  · exact Option.some.inj h ▸ ofWidth_excluding round_zeros
  · exact Option.some.inj h ▸ ofWidth_excluding hs
  · exact Option.some.inj h ▸ hs
  · split at h
    · exact Option.some.inj h ▸ ofWidth_of_numbers_eq_nil rfl
    · exact nomatch h
  · exact nomatch h

/-! ## Rounding -/

theorem roundedExcluding_eq {xs : List Double} (h : ∀ x ∈ xs, w.round x = x) :
    roundedExcluding w xs = excluding xs := by
  rw [roundedExcluding, List.map_congr_left h, List.map_id']

theorem roundedJoinApart_eq {s t : FloatingSet} (hs : s.OfWidth w) (ht : t.OfWidth w) :
    roundedJoinApart w s t = joinApart s t := by
  cases s with
  | allBut xs => exact roundedExcluding_eq (ofWidth_filter hs _)
  | any =>
    cases t with
    | allBut ys => exact roundedExcluding_eq (ofWidth_filter ht _)
    | _ => rfl
  | zeros =>
    cases t with
    | allBut ys => exact roundedExcluding_eq (ofWidth_filter ht _)
    | _ => rfl
  | only x =>
    cases t with
    | allBut ys => exact roundedExcluding_eq (ofWidth_filter ht _)
    | _ => rfl

/-- A join rounds the numbers that it excludes, which are numbers of the width already. -/
theorem roundedJoin_eq {s t : FloatingSet} (hs : s.OfWidth w) (ht : t.OfWidth w) :
    roundedJoin w s t = s.join t := by
  rw [roundedJoin, roundedJoinApart_eq hs ht, join]

theorem roundedZerosOf?_eq (s : FloatingSet) : roundedZerosOf? w s = zerosOf? s := by
  have hround : ∀ x ∈ Double.zeros.filter (s.contains ·), w.round x = x :=
    fun x hx => round_zeros x (List.mem_filter.1 hx).1
  unfold roundedZerosOf? zerosOf?
  generalize Double.zeros.filter (s.contains ·) = members at hround ⊢
  match members with
  | [] => rfl
  | [x] => exact congrArg (fun y => some (only y)) (hround x (List.mem_singleton_self x))
  | _ :: _ :: _ => rfl

theorem roundedMeetApart?_eq {s t : FloatingSet} (hs : s.OfWidth w) (ht : t.OfWidth w) :
    roundedMeetApart? w s t = meetApart? s t := by
  cases s with
  | allBut xs =>
    cases t with
    | allBut ys => exact congrArg some (roundedExcluding_eq (ofWidth_append hs ht))
    | zeros => exact roundedZerosOf?_eq (allBut xs)
    | _ => rfl
  | zeros => exact roundedZerosOf?_eq t
  | any => cases t <;> rfl
  | only x =>
    cases t with
    | zeros => exact roundedZerosOf?_eq (only x)
    | _ => rfl

theorem roundedMeet?_eq {s t : FloatingSet} (hs : s.OfWidth w) (ht : t.OfWidth w) :
    roundedMeet? w s t = s.meet? t := by
  rw [roundedMeet?, roundedMeetApart?_eq hs ht, meet?]

theorem roundedNegate?_eq {s : FloatingSet} (hs : s.OfWidth w) :
    roundedNegate? w s = s.negate? := by
  match s with
  | any => rfl
  | zeros => exact congrArg some (roundedExcluding_eq round_zeros)
  | only x => exact congrArg some (roundedExcluding_eq hs)
  | allBut [] => rfl
  | allBut [x] => exact congrArg (fun y => some (only y)) (hs x (List.mem_singleton_self x))
  | allBut [_, _] => rfl
  | allBut (_ :: _ :: _ :: _) => rfl

end ValueLattice.FloatingSet
