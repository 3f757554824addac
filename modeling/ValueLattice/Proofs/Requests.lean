import Mathlib.Data.List.Induction
import ValueLattice.Proofs.Memos

/-!
# Hierarchies that serve requests

A hierarchy may be told and asked anything in any order. It answers from the latest declarations,
whatever it was asked before.

* `Memo.Current`: what every request keeps, and so what holds after any sequence of them;
* `answers_current`: answers depend on the latest declarations only;
* `Archive.Reached`: several hierarchies, each of which is told and asked anything; what is asked of
  one of them is answered as if none remembered anything.
-/

namespace ValueLattice

/-! ## Questions -/

/-- What a hierarchy may be asked. The first operand of an operation on constraints is a requirement
of the hierarchy itself (`top` and `bottom` ask nothing), the second one any constraint. -/
inductive Question where
  | supertypes (name : String)
  | isSubtype (sub sup : String)
  | instanceOf (name : String)
  | exactly (name : String)
  | covers (x : Nominal) (y : Constraint)
  | join (x : Nominal) (y : Constraint)
  | meet (x : Nominal) (y : Constraint)

/-- What a question is answered with. -/
inductive Reply where
  | names (names : List String)
  | truth (b : Bool)
  | constraint (c : Constraint)

namespace Question

/-- How the hierarchy with the given number answers a question. -/
def ask (id : HierarchyId) : Question → Recall Reply
  | supertypes name => do return .names (← Recall.supertypes name)
  | isSubtype sub sup => do return .truth (← Recall.isSubtype sub sup)
  | instanceOf name => do return .constraint (← Recall.instanceOf id name)
  | exactly name => return .constraint (.exactly id name)
  | covers x y => do return .truth (← Recall.covers id x y)
  | join x y => do return .constraint (← Recall.join id x y)
  | meet x y => do return .constraint (← Recall.meet id x y)

/-- The answer of a hierarchy that remembers nothing. -/
def reply (r : Registry) (id : HierarchyId) : Question → Reply
  | supertypes name => .names ((r.hierarchy id).supertypes name)
  | isSubtype sub sup => .truth ((r.hierarchy id).isSubtype sub sup)
  | instanceOf name => .constraint (Constraint.instanceOf r id name)
  | exactly name => .constraint (.exactly id name)
  | covers x y => .truth ((Constraint.nominal id x).covers r y)
  | join x y => .constraint ((Constraint.nominal id x).join r y)
  | meet x y => .constraint ((Constraint.nominal id x).meet r y)

theorem answers_ask {r : Registry} {id : HierarchyId} (q : Question) :
    Recall.Answers (r.hierarchy id) (q.ask id) (q.reply r id) := by
  cases q with
  | supertypes name => exact (Recall.answers_supertypes name).bind (.pure _)
  | isSubtype sub sup => exact (Recall.answers_isSubtype sub sup).bind (.pure _)
  | instanceOf name => exact (Recall.answers_ofBounds id [name]).bind (.pure _)
  | exactly name => exact .pure _
  | covers x y => exact (Recall.answers_covers id x y).bind (.pure _)
  | join x y => exact (Recall.answers_join id x y).bind (.pure _)
  | meet x y => exact (Recall.answers_meet id x y).bind (.pure _)

/-- To every hierarchy there is one answer, whatever a sound memo of it remembers. -/
theorem exists_answers (h : Hierarchy) (id : HierarchyId) (q : Question) :
    ∃ reply, Recall.Answers h (q.ask id) reply := by
  let r : Registry := ⟨List.replicate (id + 1) h⟩
  have hr : r.hierarchy id = h := by simp [r, Registry.hierarchy]
  exact ⟨q.reply r id, hr ▸ q.answers_ask⟩

end Question

/-! ## Any sequence of requests -/

/-- A hierarchy is told a declaration, or asked a question. -/
inductive Request where
  | declare (name : String) (d : TypeDeclaration)
  | ask (q : Question)

namespace Request

/-- What the request declares of a name, if it does. -/
def declared? (name : String) : Request → Option TypeDeclaration
  | declare other d => if other = name then some d else none
  | ask _ => none

/-- What some requests declare last of a name; a name that they never declare has no supertypes, is
not final and is not an interface. -/
def latest (requests : List Request) (name : String) : TypeDeclaration :=
  (requests.reverse.findSome? (·.declared? name)).getD {}

theorem latest_concat (requests : List Request) (request : Request) (name : String) :
    latest (requests ++ [request]) name =
      (request.declared? name).getD (latest requests name) := by
  rw [latest, List.reverse_concat, List.findSome?_cons]
  cases request.declared? name <;> rfl

end Request

namespace Memo

/-- The memo after the hierarchy with the given number has served a request. -/
def serve (id : HierarchyId) (m : Memo) : Request → Memo
  | .declare name d => m.declare name d
  | .ask q => ((q.ask id).run m).2

/-- The memo of a new hierarchy that has served some requests, one after the other. -/
def after (id : HierarchyId) (root : String) (requests : List Request) : Memo :=
  requests.foldl (serve id) (ofRoot root)

/-- The invariant of a hierarchy that has served some requests: it has the latest declarations, and
whatever it remembers is right. -/
structure Current (root : String) (requests : List Request) (m : Memo) : Prop where
  sound : m.Sound
  root : m.hierarchy.root = root
  declaration : ∀ name, m.hierarchy.declaration name = Request.latest requests name

variable {id : HierarchyId} {root : String} {requests : List Request} {m : Memo}

/-- Requests with the same latest declarations lead to hierarchies that agree. -/
theorem Current.agrees {others : List Request} {m' : Memo} (hm' : Current root others m')
    (hm : Current root requests m)
    (hlatest : ∀ name, Request.latest others name = Request.latest requests name) :
    m'.hierarchy.Agrees m.hierarchy where
  root := hm'.root.trans hm.root.symm
  declaration name := by rw [hm'.declaration, hm.declaration, hlatest]

theorem Current.serve (hm : Current root requests m) (request : Request) :
    Current root (requests ++ [request]) (m.serve id request) := by
  cases request with
  | declare name d =>
    refine ⟨sound_declare m name d, hm.root, ?_⟩
    intro other
    show (m.hierarchy.declare name d).declaration other = _
    rw [Request.latest_concat, Request.declared?]
    by_cases hother : name = other
    · rw [if_pos hother, hother, Hierarchy.declaration_declare_self]
      rfl
    · rw [if_neg hother, Hierarchy.declaration_declare_of_ne _ _ (Ne.symm hother)]
      exact hm.declaration other
  | ask q =>
    obtain ⟨reply, hreply⟩ := q.exists_answers m.hierarchy id
    obtain ⟨_, hsame, hsound⟩ := hreply m hm.sound (.refl _)
    refine ⟨hsound, (congrArg Hierarchy.root hsame).trans hm.root, ?_⟩
    intro other
    show ((q.ask id).run m).2.hierarchy.declaration other = _
    rw [hsame, Request.latest_concat]
    exact hm.declaration other

theorem current_after (id : HierarchyId) (root : String) (requests : List Request) :
    Current root requests (after id root requests) := by
  induction requests using List.reverseRecOn with
  | nil => exact ⟨sound_ofRoot root, rfl, fun _ => rfl⟩
  | append_singleton requests request ih =>
    rw [after, List.foldl_concat]
    exact ih.serve request

/-- A hierarchy may serve any requests in any order. Then its declarations are the latest ones, and
whatever it remembers is right. A search for supertypes ends, and the supertypes of a name are the
name, the root, and what paths of direct supertypes lead to. No answer depends on anything but the
latest declaration of each name. -/
theorem answers_current (id : HierarchyId) (root : String) (requests : List Request) :
    let m := after id root requests
    m.hierarchy.root = root ∧
      (∀ name, m.hierarchy.declaration name = Request.latest requests name) ∧
      m.Sound ∧
      (∀ name, (Hierarchy.Search.run m.hierarchy (m.hierarchy.mentioned + 1)
        (m.hierarchy.search name)).pending = []) ∧
      (∀ name t, t ∈ ((Recall.supertypes name).run m).1 ↔
        t = name ∨ t = root ∨ m.hierarchy.Reaches name t) ∧
      (∀ sub sup, ((Recall.isSubtype sub sup).run m).1 = true ↔
        sup = sub ∨ sup = root ∨ m.hierarchy.Reaches sub sup) ∧
      (∀ others, (∀ name, Request.latest others name = Request.latest requests name) →
        ∀ q : Question, ((q.ask id).run (after id root others)).1 = ((q.ask id).run m).1) := by
  intro m
  have hm : Current root requests m := current_after id root requests
  have hmem (name t : String) :
      t ∈ m.hierarchy.supertypes name ↔ t = name ∨ t = root ∨ m.hierarchy.Reaches name t := by
    rw [Hierarchy.mem_supertypes_iff, hm.root]
    constructor
    · exact .inr
    · rintro (rfl | ht)
      · exact .inr .refl
      · exact ht
  refine ⟨hm.root, hm.declaration, hm.sound, m.hierarchy.pending_run_search, ?supertypes, ?subtypes,
    ?replies⟩
  case supertypes =>
    intro name t
    rw [(Recall.answers_supertypes name m hm.sound (.refl _)).1, hmem]
  case subtypes =>
    intro sub sup
    rw [(Recall.answers_isSubtype sub sup m hm.sound (.refl _)).1, Hierarchy.isSubtype,
      List.contains_iff_mem, hmem]
  case replies =>
    intro others hlatest q
    have hothers := current_after id root others
    obtain ⟨reply, hreply⟩ := q.exists_answers m.hierarchy id
    rw [(hreply _ hothers.sound (hothers.agrees hm hlatest)).1, (hreply m hm.sound (.refl _)).1]

/-- Two types that list each other. The first one is asked for before and after it is declared
again, and each answer is asked for while it is remembered. -/
def cycle : List Request :=
  [.declare "A" { supertypes := ["B"] }, .ask (.supertypes "A"), .ask (.isSubtype "A" "C"),
    .declare "B" { supertypes := ["A", "C"] }, .ask (.supertypes "A"), .ask (.instanceOf "B"),
    .declare "A" { supertypes := ["B", "D"] }, .ask (.supertypes "A")]

theorem answers_current_cycle :
    let others : List Request :=
      [.declare "B" { supertypes := ["A", "C"] }, .declare "A" { supertypes := ["B", "D"] }]
    (∀ name, Request.latest others name = Request.latest cycle name) ∧
      "D" ∈ ((Recall.supertypes "B").run (after 0 "Object" cycle)).1 ∧
      ((Question.ask 0 (.instanceOf "B")).run (after 0 "Object" others)).1 =
        ((Question.ask 0 (.instanceOf "B")).run (after 0 "Object" cycle)).1 := by
  intro others
  have hlatest (name : String) : Request.latest others name = Request.latest cycle name := by
    simp only [Request.latest, others, cycle, List.reverse_cons, List.reverse_nil, List.nil_append,
      List.cons_append, List.findSome?_cons, Request.declared?]
    by_cases ha : "A" = name
    · simp [ha]
    · by_cases hb : "B" = name
      · simp [ha, hb]
      · simp [ha, hb]
  obtain ⟨_, _, _, _, hsupertypes, _, hreplies⟩ := answers_current 0 "Object" cycle
  refine ⟨hlatest, (hsupertypes "B" "D").2 (.inr (.inr ?_)), hreplies others hlatest _⟩
  -- The path leads through the type that was declared again.
  have ha : (after 0 "Object" cycle).hierarchy.Reaches "B" "A" :=
    .next .refl (.inl rfl) (by decide)
  exact .next ha (.inr (by decide)) (by decide)

end Memo

/-! ## Several hierarchies -/

namespace Archive

variable {α : Type} {a : Archive} {id : HierarchyId}

/-- The memos of all hierarchies are sound. -/
def Sound (a : Archive) : Prop :=
  ∀ m ∈ a.memos, m.Sound

theorem hierarchy_registry (a : Archive) (id : HierarchyId) :
    a.registry.hierarchy id = (a.memo id).hierarchy := by
  simp only [registry, Registry.hierarchy, memo, List.getD_eq_getElem?_getD, List.getElem?_map]
  cases a.memos[id]? <;> rfl

theorem Sound.memo (ha : a.Sound) (id : HierarchyId) : (a.memo id).Sound := by
  rw [Archive.memo, List.getD_eq_getElem?_getD]
  cases hm : a.memos[id]? with
  | none => exact Memo.sound_ofRoot "Object"
  | some m => exact ha m (List.mem_of_getElem? hm)

theorem Sound.add (ha : a.Sound) (root : String) : (a.add root).2.Sound := by
  intro m hm
  rcases List.mem_append.1 hm with hm | hm
  · exact ha m hm
  · rw [List.mem_singleton.1 hm]
    exact Memo.sound_ofRoot root

theorem Sound.declare (ha : a.Sound) (id : HierarchyId) (name : String) (d : TypeDeclaration) :
    (a.declare id name d).Sound := by
  intro m hm
  obtain ⟨i, hi⟩ := List.getElem?_of_mem hm
  rw [Archive.declare, List.getElem?_modify] at hi
  split at hi
  · obtain ⟨m', _, rfl⟩ := Option.map_eq_some_iff.1 hi
    exact Memo.sound_declare m' name d
  · exact ha m (List.mem_of_getElem? (i := i) (by simpa using hi))

/-- Whatever an archive with sound memos remembers, its answer is what `f` says of its hierarchies.
It keeps its hierarchies, and its memos stay sound. -/
def Answers (q : StateM Archive α) (f : Registry → α) : Prop :=
  ∀ a : Archive, a.Sound →
    (q.run a).1 = f a.registry ∧ (q.run a).2.registry = a.registry ∧ (q.run a).2.Sound

theorem answers_pure (x : α) : Answers (pure x) fun _ => x :=
  fun _ ha => ⟨rfl, rfl, ha⟩

theorem answers_ask {q : Recall α} {f : Registry → α}
    (hq : ∀ r : Registry, Recall.Answers (r.hierarchy id) q (f r)) : Answers (ask id q) f := by
  intro a ha
  obtain ⟨hx, hsame, hsound⟩ :=
    hq a.registry (a.memo id) (ha.memo id) (hierarchy_registry a id ▸ .refl _)
  refine ⟨hx, ?_, ?_⟩
  · -- The memo that is put back has the hierarchy that stood in its place.
    have hput (l : List Hierarchy) : l.set id (l.getD id {}) = l := by
      by_cases hid : id < l.length
      · simp [List.getD_eq_getElem?_getD, hid]
      · rw [List.set_eq_of_length_le (Nat.le_of_not_lt hid)]
    show Registry.mk ((a.memos.set id (q.run (a.memo id)).2).map _) = Registry.mk _
    rw [List.map_set, hsame, ← hierarchy_registry]
    exact congrArg Registry.mk (hput _)
  · intro m hm
    rcases List.mem_or_eq_of_mem_set hm with hm | rfl
    · exact ha m hm
    · exact hsound

theorem answers_instanceOf (id : HierarchyId) (name : String) :
    Answers (instanceOf id name) (Constraint.instanceOf · id name) :=
  answers_ask fun _ => Recall.answers_ofBounds id [name]

theorem answers_covers (x y : Constraint) : Answers (covers x y) (x.covers · y) := by
  cases x with
  | top => exact answers_pure _
  | bottom => exact answers_pure _
  | nominal id x => exact answers_ask fun _ => Recall.answers_covers id x y

theorem answers_join (x y : Constraint) : Answers (join x y) (x.join · y) := by
  cases x with
  | top => exact answers_pure _
  | bottom => exact answers_pure _
  | nominal id x => exact answers_ask fun _ => Recall.answers_join id x y

theorem answers_meet (x y : Constraint) : Answers (meet x y) (x.meet · y) := by
  cases x with
  | top => exact answers_pure _
  | bottom => exact answers_pure _
  | nominal id x => exact answers_ask fun _ => Recall.answers_meet id x y

/-! ### Any use of an archive -/

/-- The archives that any use leads to: hierarchies are added, told declarations and asked questions,
in any order. -/
inductive Reached : Archive → Prop where
  | empty : Reached {}
  | add {a : Archive} (ha : Reached a) (root : String) : Reached (a.add root).2
  | declare {a : Archive} (ha : Reached a) (id : HierarchyId) (name : String)
      (d : TypeDeclaration) : Reached (a.declare id name d)
  | ask {a : Archive} (ha : Reached a) (id : HierarchyId) (q : Question) :
      Reached ((Archive.ask id (q.ask id)).run a).2

theorem Reached.sound (ha : Reached a) : a.Sound := by
  induction ha with
  | empty => exact fun _ hm => nomatch hm
  | add _ root ih => exact ih.add root
  | declare _ id name d ih => exact ih.declare id name d
  | @ask a _ id q ih => exact ((answers_ask fun _ => q.answers_ask) a ih).2.2

/-- The operations of an archive are those of the algebra of its hierarchies, however the archive was
used before. So the laws of the algebra hold of its answers. -/
theorem Reached.operations (ha : Reached a) :
    (∀ id name, ((instanceOf id name).run a).1 = Constraint.instanceOf a.registry id name) ∧
      ∀ x y : Constraint,
        ((covers x y).run a).1 = x.covers a.registry y ∧
          ((join x y).run a).1 = x.join a.registry y ∧
          ((meet x y).run a).1 = x.meet a.registry y := by
  refine ⟨fun id name => ?_, fun x y => ⟨?_, ?_, ?_⟩⟩
  · exact (answers_instanceOf id name a ha.sound).1
  · exact (answers_covers x y a ha.sound).1
  · exact (answers_join x y a ha.sound).1
  · exact (answers_meet x y a ha.sound).1

end Archive

end ValueLattice
