import Mathlib.Data.List.Basic
import Mathlib.Logic.Relation
import ValueLattice.Hierarchy.Basic

/-!
# The order of types

The search for supertypes ends (`pending_run_search`) with exactly the root and what paths of direct
supertypes lead to (`mem_supertypes_iff`), and depends only on the latest declarations
(`Agrees.supertypes_eq`). A hierarchy is free of cycles exactly if its types have ranks
(`exists_rank_iff`). In a well-formed hierarchy the types are a partial order:

* `supertypes_trans`, `supertypes_antisymm`: supertypes of supertypes, and no two types that extend
  each other;
* `superclasses_comparable`: the classes above a type form a chain below the root;
* `interface_or_root_of_mem_supertypes`: no class but the root lies above an interface;
* `eq_of_final_mem_supertypes`: nothing but itself lies below a final class.
-/

namespace ValueLattice

/-- `eraseDups` leaves no duplicates. -/
theorem nodup_eraseDups (l : List String) : l.eraseDups.Nodup := by
  match l with
  | [] => simp
  | a :: l =>
    rw [List.eraseDups_cons]
    refine List.nodup_cons.2 ⟨?_, nodup_eraseDups (l.filter fun b => !b == a)⟩
    intro ha
    have hmem := List.mem_eraseDups.1 ha
    simp at hmem
termination_by l.length
decreasing_by exact Nat.lt_succ_of_le (List.length_filter_le _ _)

namespace Hierarchy

/-! ## The search ends -/

/-- The supertypes that the declarations list, as often as they list them. -/
def listed (h : Hierarchy) : List String :=
  h.declarations.flatMap (·.2.supertypes)

theorem length_listed (h : Hierarchy) : h.listed.length = h.mentioned := by
  have hfold (l : List (String × TypeDeclaration)) (n : Nat) :
      l.foldl (fun n d => n + d.2.supertypes.length) n =
        n + (l.flatMap (·.2.supertypes)).length := by
    induction l generalizing n with
    | nil => rfl
    | cons d l ih => rw [List.foldl_cons, ih, List.flatMap_cons, List.length_append, Nat.add_assoc]
  rw [mentioned, hfold, Nat.zero_add, listed]

theorem exists_declaration {h : Hierarchy} {name sup : String}
    (hsup : sup ∈ h.directSupertypes name) : ∃ d ∈ h.declarations, d.1 = name := by
  unfold directSupertypes declaration at hsup
  cases hlookup : h.declarations.lookup name with
  | none => simp [hlookup] at hsup
  | some d =>
    obtain ⟨front, rest, happend, _⟩ := List.lookup_eq_some_iff.1 hlookup
    exact ⟨(name, d), by rw [happend]; simp, rfl⟩

theorem mem_listed {h : Hierarchy} {name sup : String} (hsup : sup ∈ h.directSupertypes name) :
    sup ∈ h.listed := by
  unfold directSupertypes declaration at hsup
  cases hlookup : h.declarations.lookup name with
  | none => simp [hlookup] at hsup
  | some d =>
    obtain ⟨front, rest, happend, _⟩ := List.lookup_eq_some_iff.1 hlookup
    rw [hlookup] at hsup
    exact List.mem_flatMap.2 ⟨(name, d), by rw [happend]; simp, hsup⟩

namespace Search

/-- What a search has left to do: the pending names, and the listed ones it has not found. -/
def work (h : Hierarchy) (s : Search) : Nat :=
  s.pending.length + (h.listed.filter (· ∉ s.found)).length

/-- The direct supertypes of a name that a search has not found before. -/
def fresh (h : Hierarchy) (s : Search) (name : String) : List String :=
  (h.directSupertypes name).eraseDups.filter (· ∉ s.found)

theorem mem_fresh {h : Hierarchy} {s : Search} {name sup : String} :
    sup ∈ s.fresh h name ↔ sup ∈ h.directSupertypes name ∧ sup ∉ s.found := by
  simp [fresh]

theorem step_cons {h : Hierarchy} {s : Search} {name : String} {rest : List String}
    (hs : s.pending = name :: rest) :
    s.step h = ⟨s.found ++ s.fresh h name, (s.fresh h name).reverse ++ rest⟩ := by
  unfold step
  rw [hs]
  rfl

/-- Every step takes one name off the pending ones; a name it adds is no longer to be found. -/
theorem work_step_lt {h : Hierarchy} {s : Search} (hs : s.pending ≠ []) :
    (s.step h).work h < s.work h := by
  obtain ⟨name, rest, hpending⟩ := List.exists_cons_of_ne_nil hs
  rw [step_cons hpending, work, work, hpending]
  -- The listed names still to be found are split into those that the step finds and the others.
  have hsplit := List.length_eq_length_filter_add (l := h.listed.filter (· ∉ s.found))
    (· ∈ s.fresh h name)
  have hmissing : (h.listed.filter (· ∉ s.found)).filter (fun t => !decide (t ∈ s.fresh h name)) =
      h.listed.filter (· ∉ s.found ++ s.fresh h name) := by
    rw [List.filter_filter]
    apply List.filter_congr
    intro t _
    simp only [List.mem_append, not_or, Bool.decide_and, decide_not]
    exact Bool.and_comm _ _
  have hfresh : (s.fresh h name).length ≤
      ((h.listed.filter (· ∉ s.found)).filter (· ∈ s.fresh h name)).length := by
    have hnodup : (s.fresh h name).Nodup := (nodup_eraseDups _).filter _
    apply hnodup.length_le_of_subset
    intro t ht
    obtain ⟨hdirect, hnew⟩ := mem_fresh.1 ht
    simp [mem_listed hdirect, hnew, ht]
  rw [hmissing] at hsplit
  simp only [List.length_append, List.length_reverse, List.length_cons]
  omega

/-- A search with no more work than steps has nothing pending at the end. -/
theorem pending_run {h : Hierarchy} {n : Nat} {s : Search} (hn : s.work h ≤ n) :
    (run h n s).pending = [] := by
  induction n generalizing s with
  | zero =>
    have hlength : s.pending.length = 0 := by
      unfold work at hn
      omega
    exact List.length_eq_zero_iff.1 hlength
  | succ n ih =>
    unfold run
    by_cases hs : s.pending = []
    · simp [hs]
    · rw [if_neg (by simpa using hs)]
      have := work_step_lt (h := h) hs
      exact ih (by omega)

/-- A search with nothing pending has ended: more steps change nothing. -/
theorem run_of_pending_eq_nil {h : Hierarchy} {s : Search} (hs : s.pending = []) (n : Nat) :
    run h n s = s := by
  cases n with
  | zero => rfl
  | succ n => rw [run, if_pos (by simp [hs])]

theorem run_add (h : Hierarchy) (n k : Nat) (s : Search) :
    run h (n + k) s = run h k (run h n s) := by
  induction n generalizing s with
  | zero => rw [Nat.zero_add, run]
  | succ n ih =>
    by_cases hs : s.pending = []
    · simp only [run_of_pending_eq_nil hs]
    · have hne : ¬ s.pending.isEmpty = true := by simpa using hs
      rw [Nat.succ_add, run, if_neg hne, run, if_neg hne]
      exact ih (s.step h)

/-! ## The search finds what paths lead to -/

/-- The invariant of a search for the supertypes of a name. -/
structure Sound (h : Hierarchy) (name : String) (s : Search) : Prop where
  start_found : name ∈ s.found
  root_found : h.root ∈ s.found
  found_reached : ∀ t ∈ s.found, t = h.root ∨ Reaches h name t
  pending_reached : ∀ t ∈ s.pending, Reaches h name t ∧ (t = name ∨ t ≠ h.root)
  /-- The direct supertypes of a name that is no longer pending have been found. -/
  looked_at : ∀ t ∈ s.found, t = name ∨ t ≠ h.root →
    t ∈ s.pending ∨ ∀ sup ∈ h.directSupertypes t, sup ∈ s.found

theorem sound_search (h : Hierarchy) (name : String) : Sound h name (h.search name) where
  start_found := by simp [search]
  root_found := by simp [search]
  found_reached := by
    intro t ht
    simp only [search, List.mem_eraseDups, List.mem_cons, List.not_mem_nil, or_false] at ht
    rcases ht with rfl | rfl
    · exact .inr .refl
    · exact .inl rfl
  pending_reached := by
    intro t ht
    rw [List.mem_singleton.1 ht]
    exact ⟨.refl, .inl rfl⟩
  looked_at := by
    intro t ht hopen
    simp only [search, List.mem_eraseDups, List.mem_cons, List.not_mem_nil, or_false] at ht
    refine .inl (List.mem_singleton.2 ?_)
    rcases ht with rfl | rfl
    · rfl
    · exact hopen.resolve_right fun hne => hne rfl

theorem Sound.step {h : Hierarchy} {name : String} {s : Search} (hs : Sound h name s) :
    Sound h name (s.step h) := by
  cases hpending : s.pending with
  | nil =>
    have hstep : s.step h = s := by
      unfold Search.step
      rw [hpending]
    rwa [hstep]
  | cons t rest =>
    rw [step_cons hpending]
    have ht := hs.pending_reached t (by rw [hpending]; exact List.mem_cons_self)
    have hreached : ∀ sup ∈ s.fresh h t, Reaches h name sup := by
      intro sup hsup
      exact .next ht.1 ht.2 (mem_fresh.1 hsup).1
    refine ⟨List.mem_append_left _ hs.start_found, List.mem_append_left _ hs.root_found, ?_, ?_, ?_⟩
    · intro u hu
      rcases List.mem_append.1 hu with hu | hu
      · exact hs.found_reached u hu
      · exact .inr (hreached u hu)
    · intro u hu
      rcases List.mem_append.1 hu with hu | hu
      · have hfresh := List.mem_reverse.1 hu
        -- The root is found from the start, so it is never fresh.
        have hne : u ≠ h.root := fun heq => (mem_fresh.1 hfresh).2 (heq ▸ hs.root_found)
        exact ⟨hreached u hfresh, .inr hne⟩
      · exact hs.pending_reached u (by rw [hpending]; exact List.mem_cons_of_mem _ hu)
    · intro u hu hopen
      rcases List.mem_append.1 hu with hu | hu
      · -- The name taken off the pending ones is the only one whose case changes.
        rcases hs.looked_at u hu hopen with hup | hsups
        · rcases List.mem_cons.1 (hpending ▸ hup) with rfl | hup
          · right
            intro sup hsup
            apply List.mem_append.2
            by_cases hfound : sup ∈ s.found
            · exact .inl hfound
            · exact .inr (mem_fresh.2 ⟨hsup, hfound⟩)
          · exact .inl (List.mem_append_right _ hup)
        · exact .inr fun sup hsup => List.mem_append_left _ (hsups sup hsup)
      · exact .inl (List.mem_append_left _ (List.mem_reverse.2 hu))

theorem Sound.run {h : Hierarchy} {name : String} {n : Nat} {s : Search} (hs : Sound h name s) :
    Sound h name (run h n s) := by
  induction n generalizing s with
  | zero => exact hs
  | succ n ih =>
    unfold Search.run
    split
    · exact hs
    · exact ih hs.step

theorem Sound.found_of_reaches {h : Hierarchy} {name t : String} {s : Search}
    (hs : Sound h name s) (hpending : s.pending = []) (ht : Reaches h name t) : t ∈ s.found := by
  induction ht with
  | refl => exact hs.start_found
  | next _ hopen hsup ih =>
    rcases hs.looked_at _ ih hopen with hup | hsups
    · rw [hpending] at hup
      exact absurd hup List.not_mem_nil
    · exact hsups _ hsup

end Search

/-- The search for the supertypes of a name ends within one step more than there are listed names,
whatever the hierarchy looks like. -/
theorem pending_run_search (h : Hierarchy) (name : String) :
    (Search.run h (h.mentioned + 1) (h.search name)).pending = [] := by
  apply Search.pending_run
  have hfilter := List.length_filter_le (· ∉ (h.search name).found) h.listed
  have hone : (h.search name).pending.length = 1 := rfl
  rw [length_listed] at hfilter
  unfold Search.work
  omega

/-- The supertypes of a name are the root and the names that paths of direct supertypes lead to. -/
theorem mem_supertypes_iff {h : Hierarchy} {name t : String} :
    t ∈ h.supertypes name ↔ t = h.root ∨ Reaches h name t := by
  have hsound := (Search.sound_search h name).run (n := h.mentioned + 1)
  constructor
  · exact hsound.found_reached t
  · rintro (rfl | ht)
    · exact root_mem_supertypes h name
    · exact hsound.found_of_reaches (pending_run_search h name) ht

/-! ## Hierarchies that agree -/

/-- Two hierarchies with the same root and the same latest declaration of every name. -/
structure Agrees (h h' : Hierarchy) : Prop where
  root : h.root = h'.root
  declaration : ∀ name, h.declaration name = h'.declaration name

theorem Agrees.refl (h : Hierarchy) : h.Agrees h := ⟨rfl, fun _ => rfl⟩

section

variable {h h' : Hierarchy} (ha : h.Agrees h')

include ha

theorem Agrees.run_eq (n : Nat) (s : Search) : Search.run h n s = Search.run h' n s := by
  have hstep (s : Search) : s.step h = s.step h' := by
    simp only [Search.step, directSupertypes, ha.declaration]
  induction n generalizing s with
  | zero => rfl
  | succ n ih => rw [Search.run, Search.run, hstep, ih]

/-- How often and in which order types were declared does not matter for the supertypes, nor for the
order in which they are found. -/
theorem Agrees.supertypes_eq (name : String) : h.supertypes name = h'.supertypes name := by
  -- The bounds on the two searches may differ, but both have ended after the steps of both.
  have hends {h : Hierarchy} (k : Nat) :
      h.supertypes name = (Search.run h (h.mentioned + 1 + k) (h.search name)).found := by
    rw [Search.run_add, Search.run_of_pending_eq_nil (pending_run_search h name), supertypes]
  have hsearch : h.search name = h'.search name := by rw [search, search, ha.root]
  rw [hends (h'.mentioned + 1), hends (h := h') (h.mentioned + 1), hsearch, ha.run_eq,
    Nat.add_comm (h.mentioned + 1)]

end

/-- Every listed supertype is spelled as `p` allows. -/
def Spelled (h : Hierarchy) (p : String → Prop) : Prop :=
  ∀ name, ∀ sup ∈ h.directSupertypes name, p sup

/-- The supertypes of a name, but for the root, are spelled as the name and the listed ones are. -/
theorem Spelled.of_mem_supertypes {h : Hierarchy} {p : String → Prop} (hp : h.Spelled p)
    {name t : String} (hname : p name) (ht : t ∈ h.supertypes name) (htr : t ≠ h.root) : p t := by
  cases (mem_supertypes_iff.1 ht).resolve_left htr with
  | refl => exact hname
  | next _ _ hsup => exact hp _ _ hsup

/-! ## Well-formed hierarchies -/

/-- A rank falls along the direct supertypes exactly if no name lies above itself. -/
theorem exists_rank_iff {h : Hierarchy} :
    (∃ rank : String → Nat, ∀ name sup, sup ∈ h.directSupertypes name → rank sup < rank name) ↔
      ∀ name, ¬ Relation.TransGen (fun a b => b ∈ h.directSupertypes a) name name := by
  constructor
  · rintro ⟨rank, hrank⟩ name hcycle
    have hfalls {a b : String} (hab : Relation.TransGen (fun a b => b ∈ h.directSupertypes a) a b) :
        rank b < rank a := by
      induction hab with
      | single hsup => exact hrank _ _ hsup
      | tail _ hsup ih => exact Nat.lt_trans (hrank _ _ hsup) ih
    exact Nat.lt_irrefl _ (hfalls hcycle)
  · intro hacyclic
    classical
    -- The rank of a name is the number of names above it. A direct supertype is one of them, and
    -- what is above the supertype is above both.
    let above (name t : String) : Prop :=
      Relation.TransGen (fun a b => b ∈ h.directSupertypes a) name t
    refine ⟨fun name => (h.listed.filter (above name ·)).length, ?_⟩
    intro name sup hsup
    have hsub : h.listed.filter (above sup ·) =
        (h.listed.filter (above name ·)).filter (above sup ·) := by
      rw [List.filter_filter]
      apply List.filter_congr
      intro t _
      by_cases ht : above sup t
      · have hname : above name t := .head hsup ht
        simp [ht, hname]
      · simp [ht]
    show (h.listed.filter (above sup ·)).length < (h.listed.filter (above name ·)).length
    rw [hsub]
    refine List.length_filter_lt_length_iff_exists.2 ⟨sup, ?_, ?_⟩
    · have hname : above name sup := .single hsup
      simpa [hname] using mem_listed hsup
    · simpa [above] using hacyclic sup

/-- Whether a hierarchy is well-formed shows on the names it declares. -/
theorem WellFormed.of_declared {h : Hierarchy} (rank : String → Nat)
    (hroot : h.directSupertypes h.root = [])
    (hrank : ∀ d ∈ h.declarations, ∀ sup ∈ h.directSupertypes d.1, rank sup < rank d.1)
    (hsingle : ∀ d ∈ h.declarations, h.isInterface d.1 = false →
      ∀ a ∈ h.directSupertypes d.1, h.isInterface a = false → a ≠ h.root →
      ∀ b ∈ h.directSupertypes d.1, h.isInterface b = false → b ≠ h.root → a = b)
    (habove : ∀ d ∈ h.declarations, h.isInterface d.1 = true →
      ∀ sup ∈ h.directSupertypes d.1, h.isInterface sup = true ∨ sup = h.root)
    (hfinal : ∀ d ∈ h.declarations, ∀ sup ∈ h.directSupertypes d.1,
      ¬ (h.isFinal sup = true ∧ h.isInterface sup = false)) : h.WellFormed where
  root_extends_nothing := hroot
  acyclic := by
    refine ⟨rank, ?_⟩
    intro name sup hsup
    obtain ⟨d, hd, rfl⟩ := exists_declaration hsup
    exact hrank d hd sup hsup
  single_superclass := by
    intro name hclass a b ha hac har hb hbc hbr
    obtain ⟨d, hd, rfl⟩ := exists_declaration ha
    exact hsingle d hd hclass a ha hac har b hb hbc hbr
  interfaces_above := by
    intro name hinterface sup hsup
    obtain ⟨d, hd, rfl⟩ := exists_declaration hsup
    exact habove d hd hinterface sup hsup
  final_extended_by_none := by
    intro name sup hsup
    obtain ⟨d, hd, rfl⟩ := exists_declaration hsup
    exact hfinal d hd sup hsup

section

variable {h : Hierarchy} (hw : h.WellFormed)

include hw

theorem WellFormed.reaches_trans {a b c : String} (hab : Reaches h a b) (hbc : Reaches h b c) :
    Reaches h a c := by
  induction hbc with
  | refl => exact hab
  | next hbt _ hsup ih =>
    -- The root has no direct supertypes, so the path has not come to it.
    refine .next ih (.inr ?_) hsup
    rintro rfl
    rw [hw.root_extends_nothing] at hsup
    exact absurd hsup List.not_mem_nil

/-- A path that leads somewhere else starts with one of the direct supertypes. -/
theorem WellFormed.reaches_cases {a c : String} (hac : Reaches h a c) :
    c = a ∨ ∃ b ∈ h.directSupertypes a, Reaches h b c := by
  induction hac with
  | refl => exact .inl rfl
  | next hat _ hsup ih =>
    rcases ih with rfl | ⟨b, hb, hbt⟩
    · exact .inr ⟨_, hsup, .refl⟩
    · exact .inr ⟨b, hb, hw.reaches_trans hbt (.next .refl (.inl rfl) hsup)⟩

theorem WellFormed.eq_root_of_reaches_root {t : String} (ht : Reaches h h.root t) : t = h.root := by
  rcases hw.reaches_cases ht with rfl | ⟨b, hb, _⟩
  · rfl
  · rw [hw.root_extends_nothing] at hb
    exact absurd hb List.not_mem_nil

theorem WellFormed.eq_of_reaches_of_reaches {a b : String} (hab : Reaches h a b)
    (hba : Reaches h b a) : a = b := by
  -- Ranks fall along a path, so a path back would have to be empty.
  obtain ⟨rank, hrank⟩ := hw.acyclic
  have hle {a b : String} (hab : Reaches h a b) : a = b ∨ rank b < rank a := by
    induction hab with
    | refl => exact .inl rfl
    | next _ _ hsup ih =>
      have hlt := hrank _ _ hsup
      rcases ih with rfl | ih
      · exact .inr hlt
      · exact .inr (by omega)
  rcases hle hab with h | hlt
  · exact h
  · rcases hle hba with h | hlt'
    · exact h.symm
    · omega

/-! ## The partial order -/

theorem WellFormed.supertypes_trans {a b c : String} (hab : b ∈ h.supertypes a)
    (hbc : c ∈ h.supertypes b) : c ∈ h.supertypes a := by
  rw [mem_supertypes_iff] at hab hbc ⊢
  rcases hbc with rfl | hbc
  · exact .inl rfl
  · rcases hab with rfl | hab
    · exact .inl (hw.eq_root_of_reaches_root hbc)
    · exact .inr (hw.reaches_trans hab hbc)

theorem WellFormed.eq_root_of_mem_supertypes_root {t : String} (ht : t ∈ h.supertypes h.root) :
    t = h.root := by
  rcases mem_supertypes_iff.1 ht with rfl | ht
  · rfl
  · exact hw.eq_root_of_reaches_root ht

theorem WellFormed.supertypes_antisymm {a b : String} (hab : b ∈ h.supertypes a)
    (hba : a ∈ h.supertypes b) : a = b := by
  by_cases hb : b = h.root
  · subst hb
    exact hw.eq_root_of_mem_supertypes_root hba
  · by_cases ha : a = h.root
    · subst ha
      exact (hw.eq_root_of_mem_supertypes_root hab).symm
    · exact hw.eq_of_reaches_of_reaches ((mem_supertypes_iff.1 hab).resolve_left hb)
        ((mem_supertypes_iff.1 hba).resolve_left ha)

/-! ## Classes and interfaces -/

/-- Above an interface there are only interfaces and the root. -/
theorem WellFormed.interface_or_root_of_mem_supertypes {a t : String}
    (ha : h.isInterface a = true) (ht : t ∈ h.supertypes a) :
    h.isInterface t = true ∨ t = h.root := by
  rcases mem_supertypes_iff.1 ht with rfl | ht
  · exact .inr rfl
  · induction ht with
    | refl => exact .inl ha
    | next hat _ hsup ih =>
      rcases ih (mem_supertypes_iff.2 (.inr hat)) with hint | rfl
      · exact hw.interfaces_above _ hint _ hsup
      · rw [hw.root_extends_nothing] at hsup
        exact absurd hsup List.not_mem_nil

/-- Below a class other than the root there are only classes. -/
theorem WellFormed.class_of_class_mem_supertypes {a t : String} (ht : t ∈ h.supertypes a)
    (htc : h.isInterface t = false) (htr : t ≠ h.root) : h.isInterface a = false := by
  by_contra ha
  rcases hw.interface_or_root_of_mem_supertypes (by simpa using ha) ht with hint | hroot
  · rw [htc] at hint
    exact Bool.noConfusion hint
  · exact htr hroot

/-- The classes above a type, other than the root, form a chain: a path to a class goes through the
only superclass of each class on it. -/
theorem WellFormed.superclasses_comparable {x a b : String} (ha : a ∈ h.supertypes x)
    (hac : h.isInterface a = false) (har : a ≠ h.root) (hb : b ∈ h.supertypes x)
    (hbc : h.isInterface b = false) (hbr : b ≠ h.root) :
    a ∈ h.supertypes b ∨ b ∈ h.supertypes a := by
  obtain ⟨rank, hrank⟩ := hw.acyclic
  induction hn : rank x using Nat.strongRecOn generalizing x with
  | ind n ih =>
    rcases hw.reaches_cases ((mem_supertypes_iff.1 ha).resolve_left har) with rfl | ⟨y, hy, hya⟩
    · exact .inr hb
    rcases hw.reaches_cases ((mem_supertypes_iff.1 hb).resolve_left hbr) with rfl | ⟨z, hz, hzb⟩
    · exact .inl ha
    have hne_root {y c : String} (hyc : Reaches h y c) (hcr : c ≠ h.root) : y ≠ h.root := by
      rintro rfl
      exact hcr (hw.eq_root_of_reaches_root hyc)
    have hyc := hw.class_of_class_mem_supertypes (mem_supertypes_iff.2 (.inr hya)) hac har
    have hzc := hw.class_of_class_mem_supertypes (mem_supertypes_iff.2 (.inr hzb)) hbc hbr
    have hyr := hne_root hya har
    have hzr := hne_root hzb hbr
    have hx := hw.class_of_class_mem_supertypes ha hac har
    have hyz : y = z := hw.single_superclass x hx y z hy hyc hyr hz hzc hzr
    subst hyz
    -- Both paths go on from the only superclass, whose rank is smaller.
    exact ih (rank y) (hn ▸ hrank x y hy) (mem_supertypes_iff.2 (.inr hya))
      (mem_supertypes_iff.2 (.inr hzb)) rfl

/-- Nothing but itself extends a final class. -/
theorem WellFormed.eq_of_final_mem_supertypes {x f : String} (hf : f ∈ h.supertypes x)
    (hfinal : h.isFinal f = true) (hfc : h.isInterface f = false) (hfr : f ≠ h.root) : f = x := by
  cases (mem_supertypes_iff.1 hf).resolve_left hfr with
  | refl => rfl
  | next _ _ hsup => exact absurd ⟨hfinal, hfc⟩ (hw.final_extended_by_none _ _ hsup)

end

end Hierarchy

end ValueLattice
