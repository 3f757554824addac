import ValueLattice.Constraint.Recalled
import ValueLattice.Proofs.Constraints

/-!
# What hierarchies remember

A hierarchy answers from memory only what it would answer now, and every operation on constraints
keeps it so.

* `Memo.Sound`: all remembered answers are right; a declaration keeps them right because it makes
  the hierarchy forget;
* `Recall.Answers`: a computation answers from any sound memo what the hierarchy itself would
  answer;
* `answers_covers`, `answers_join` and `answers_meet`: the operations on constraints do.
-/

namespace ValueLattice

/-! ## Sound memos -/

namespace Memo

/-- Whatever is remembered is what the hierarchy answers now. -/
def Sound (m : Memo) : Prop :=
  ∀ name answer, m.answers.lookup name = some answer → answer = m.hierarchy.supertypes name

theorem sound_ofRoot (root : String) : (ofRoot root).Sound :=
  fun _ _ h => nomatch h

theorem sound_declare (m : Memo) (name : String) (d : TypeDeclaration) : (m.declare name d).Sound :=
  fun _ _ h => nomatch h

theorem Sound.remember {m : Memo} (hm : m.Sound) (name : String) :
    (m.remember name (m.hierarchy.supertypes name)).Sound := by
  intro other answer h
  rw [Memo.remember, List.lookup_cons] at h
  split at h
  · next heq =>
    rw [← Option.some.inj h, ← beq_iff_eq.1 heq]
    rfl
  · exact hm other answer h

end Memo

/-! ## Right answers -/

namespace Recall

variable {α β : Type} {h : Hierarchy}

/-- Asked of a sound memo of a hierarchy that agrees with `h`, the computation answers `a`. It
leaves the hierarchy as it is, and the memo sound. -/
def Answers (h : Hierarchy) (q : Recall α) (a : α) : Prop :=
  ∀ m : Memo, m.Sound → m.hierarchy.Agrees h →
    (q.run m).1 = a ∧ (q.run m).2.hierarchy = m.hierarchy ∧ (q.run m).2.Sound

theorem Answers.pure (a : α) : Answers h (pure a) a :=
  fun _ hm _ => ⟨rfl, rfl, hm⟩

theorem Answers.bind {q : Recall α} {f : α → Recall β} {a : α} {b : β} (hq : Answers h q a)
    (hf : Answers h (f a) b) : Answers h (q >>= f) b := by
  intro m hm hagrees
  obtain ⟨ha, hsame, hsound⟩ := hq m hm hagrees
  have hrun : (q >>= f).run m = (f (q.run m).1).run (q.run m).2 := rfl
  obtain ⟨hb, hsame', hsound'⟩ := hf (q.run m).2 hsound (hsame ▸ hagrees)
  rw [hrun, ha]
  exact ⟨hb, hsame'.trans hsame, hsound'⟩

/-- A computation may read the declarations as long as hierarchies that agree lead to one answer. -/
theorem Answers.hierarchy_bind {f : Hierarchy → Recall α} {a : α}
    (hf : ∀ h' : Hierarchy, h'.Agrees h → Answers h (f h') a) : Answers h (hierarchy >>= f) a :=
  fun m hm hagrees => hf m.hierarchy hagrees m hm hagrees

theorem answers_supertypes (name : String) : Answers h (supertypes name) (h.supertypes name) := by
  intro m hm hagrees
  have hrun : (supertypes name).run m = m.supertypes name := rfl
  rw [hrun, Memo.supertypes, ← hagrees.supertypes_eq]
  split
  · next answer hlookup => exact ⟨hm name answer hlookup, rfl, hm⟩
  · exact ⟨rfl, rfl, hm.remember name⟩

theorem answers_isSubtype (sub sup : String) :
    Answers h (isSubtype sub sup) (h.isSubtype sub sup) :=
  (answers_supertypes sub).bind (.pure _)

/-! ## Lists of questions -/

theorem Answers.anyM {p : α → Recall Bool} {p' : α → Bool} (hp : ∀ a, Answers h (p a) (p' a))
    (l : List α) : Answers h (l.anyM p) (l.any p') := by
  induction l with
  | nil => exact .pure _
  | cons a l ih =>
    rw [List.anyM, List.any_cons]
    refine (hp a).bind ?_
    cases p' a with
    | true => exact .pure _
    | false => exact ih

theorem Answers.allM {p : α → Recall Bool} {p' : α → Bool} (hp : ∀ a, Answers h (p a) (p' a))
    (l : List α) : Answers h (l.allM p) (l.all p') := by
  induction l with
  | nil => exact .pure _
  | cons a l ih =>
    rw [List.allM, List.all_cons]
    refine (hp a).bind ?_
    cases p' a with
    | true => exact ih
    | false => exact .pure _

theorem Answers.mapM {f : α → Recall β} {f' : α → β} (hf : ∀ a, Answers h (f a) (f' a))
    (l : List α) : Answers h (l.mapM f) (l.map f') := by
  induction l with
  | nil =>
    rw [List.mapM_nil]
    exact .pure _
  | cons a l ih =>
    rw [List.mapM_cons, List.map_cons]
    exact (hf a).bind (ih.bind (.pure _))

/-- The reduction asks for one comparison after the other and leaves what it would leave if all of
them were known. -/
theorem Answers.maximalM {subsumes : α → α → Recall Bool} {subsumes' : α → α → Bool}
    (hsubsumes : ∀ a b, Answers h (subsumes a b) (subsumes' a b)) (items : List α) :
    Answers h (Antichain.maximalM subsumes items) (Antichain.maximal subsumes' items) := by
  have hsift (kept rest : List α) :
      Answers h (Antichain.siftM subsumes kept rest) (Antichain.sift subsumes' kept rest) := by
    induction rest generalizing kept with
    | nil => exact .pure _
    | cons a rest ih =>
      rw [Antichain.siftM, Antichain.sift_cons]
      refine (Answers.anyM (hsubsumes a) (kept ++ rest)).bind ?_
      split
      · exact ih kept
      · exact ih (kept ++ [a])
  rw [Antichain.maximal_eq_sift]
  exact hsift [] items

/-! ## Constraints -/

theorem answers_reducedBounds (names : List String) :
    Answers h (reducedBounds names) (Constraint.reducedBounds h names) := by
  refine .hierarchy_bind fun h' hagrees => ?_
  rw [Constraint.reducedBounds_eq, hagrees.root]
  exact .maximalM (fun a b => answers_isSubtype b a) _

theorem ofReduced_eq_of_agrees {h' : Hierarchy} (hagrees : h'.Agrees h) (id : HierarchyId)
    (reduced : List String) :
    Constraint.ofReduced h' id reduced = Constraint.ofReduced h id reduced := by
  have hinterface (name : String) : h'.isInterface name = h.isInterface name := by
    rw [Hierarchy.isInterface, hagrees.declaration, Hierarchy.isInterface]
  have hfinal : h'.isFinal = h.isFinal := by
    funext name
    rw [Hierarchy.isFinal, hagrees.declaration, Hierarchy.isFinal]
  simp only [Constraint.ofReduced, hinterface, hfinal]

section

variable {r : Registry} (id : HierarchyId)

theorem answers_ofBounds (names : List String) :
    Answers (r.hierarchy id) (ofBounds id names) (Constraint.ofBounds r id names) := by
  rw [Constraint.ofBounds_eq]
  refine (answers_reducedBounds names).bind (.hierarchy_bind fun h' hagrees => ?_)
  rw [ofReduced_eq_of_agrees hagrees]
  exact .pure _

theorem answers_exactWithin (name : String) (names : List String) :
    Answers (r.hierarchy id) (exactWithin id name names)
      (Constraint.exactWithin r id name names) := by
  rw [Constraint.exactWithin]
  refine (Answers.allM (answers_isSubtype name) names).bind ?_
  split
  · exact .pure _
  · exact .pure _

theorem answers_implied (x : Nominal) : Answers h (implied x) (x.implied h) := by
  cases x with
  | exact name => exact answers_supertypes name
  | bounds names =>
    rw [Nominal.implied, List.flatMap_def]
    exact (Answers.mapM answers_supertypes names).bind (.pure _)

theorem answers_common (x y : Nominal) : Answers h (common x y) (Nominal.common h x y) :=
  (answers_implied y).bind ((answers_implied x).bind (.pure _))

theorem answers_coversSame (x y : Nominal) : Answers h (coversSame x y) (x.covers h y) := by
  cases x with
  | exact name => exact .pure _
  | bounds names => exact (answers_implied y).bind (.pure _)

theorem answers_covers (x : Nominal) (y : Constraint) :
    Answers (r.hierarchy id) (covers id x y) ((Constraint.nominal id x).covers r y) := by
  cases y with
  | top => exact .pure _
  | bottom => exact .pure _
  | nominal j y =>
    by_cases hid : id = j
    · subst hid
      have hcovers : (Constraint.nominal id x).covers r (.nominal id y) =
          x.covers (r.hierarchy id) y := by simp [Constraint.covers]
      rw [hcovers, covers, if_pos rfl]
      exact answers_coversSame x y
    · have hcovers : (Constraint.nominal id x).covers r (.nominal j y) = false := by
        simp [Constraint.covers, hid]
      rw [hcovers, covers, if_neg hid]
      exact .pure _

theorem answers_joinSame (x y : Nominal) :
    Answers (r.hierarchy id) (joinSame id x y)
      ((Constraint.nominal id x).join r (.nominal id y)) := by
  simp only [Constraint.join, ne_eq, not_true_eq_false, if_false]
  have hcommon := (answers_common x y).bind (answers_ofBounds (r := r) id _)
  cases x with
  | exact a =>
    cases y with
    | exact b =>
      by_cases hab : a = b
      · simp only [joinSame, if_pos hab]
        exact .pure _
      · simp only [joinSame, if_neg hab]
        exact hcommon
    | bounds names => exact hcommon
  | bounds names => exact hcommon

theorem answers_join (x : Nominal) (y : Constraint) :
    Answers (r.hierarchy id) (join id x y) ((Constraint.nominal id x).join r y) := by
  cases y with
  | top => exact .pure _
  | bottom => exact .pure _
  | nominal j y =>
    by_cases hid : id = j
    · subst hid
      rw [join, if_pos rfl]
      exact answers_joinSame id x y
    · have hjoin : (Constraint.nominal id x).join r (.nominal j y) = .top := by
        simp [Constraint.join, hid]
      rw [hjoin, join, if_neg hid]
      exact .pure _

theorem answers_meetSame (x y : Nominal) :
    Answers (r.hierarchy id) (meetSame id x y)
      ((Constraint.nominal id x).meet r (.nominal id y)) := by
  simp only [Constraint.meet, ne_eq, not_true_eq_false, if_false]
  cases x with
  | exact a =>
    cases y with
    | exact b => exact .pure _
    | bounds names => exact answers_exactWithin id a names
  | bounds names =>
    cases y with
    | exact a => exact answers_exactWithin id a names
    | bounds others => exact answers_ofBounds id (names ++ others)

theorem answers_meet (x : Nominal) (y : Constraint) :
    Answers (r.hierarchy id) (meet id x y) ((Constraint.nominal id x).meet r y) := by
  cases y with
  | top => exact .pure _
  | bottom => exact .pure _
  | nominal j y =>
    by_cases hid : id = j
    · subst hid
      rw [meet, if_pos rfl]
      exact answers_meetSame id x y
    · have hmeet : (Constraint.nominal id x).meet r (.nominal j y) = .bottom := by
        simp [Constraint.meet, hid]
      rw [hmeet, meet, if_neg hid]
      exact .pure _

end

end Recall

end ValueLattice
