import ValueLattice.Analysis
import ValueLattice.Proofs.Elements.Checked
import ValueLattice.Proofs.Elements.Lattice

/-!
# The elements that an analysis obtains

An analysis makes elements and applies operations to elements that it has, while types are still
being declared. A history lists what it has obtained.

* `Step`: an operation with the elements that it is applied to, and what it returns;
* `History`: the lists of elements that an analysis obtains over one hierarchy;
* `History.forall_mem`: by induction on the history, what making and operations keep holds of every
  element in it, so `History.regular`: every element is regular;
* `history_laws`: where string constants are shorter than `2^31` units, every element satisfies the
  invariant and no operation ends with a fault.
-/

namespace ValueLattice

/-- Strings whose length is an `int`, and any names. -/
def Vocabulary.short : Vocabulary :=
  ⟨fun _ => True, fun _ => True, fun s => Text.unitLength s < Nat.pow 2 31, trivial⟩

namespace Element

variable {r : Registry} {id : HierarchyId} {v : Vocabulary}

/-! ## Steps -/

/-- An operation with the elements that it is applied to. -/
inductive Step where
  | join (a b : Element)
  | meet (a b : Element)
  | negate (a : Element)
  | toWide (a : Element)
  | narrow (range : RangeSet) (a : Element)
  | asObject (c : ReferenceConstant)
  | widen (l : Lattice) (loggers : Logging.Tree) (old new : Element)

namespace Step

/-- The elements that the operation is applied to. -/
def operands : Step → List Element
  | join a b => [a, b]
  | meet a b => [a, b]
  | negate a => [a]
  | toWide a => [a]
  | narrow _ a => [a]
  | asObject c => [constant c]
  | widen _ _ old new => [old, new]

/-- Only integers are narrowed, or nothing. -/
def Applicable : Step → Prop
  | narrow _ a => a = bottom ∨ ∃ s, a = integral s
  | _ => True

/-- What the operation returns. -/
def run (r : Registry) : Step → Except Fault Element
  | join a b => Checked.join r a b
  | meet a b => Checked.meet r a b
  | negate a => .ok (Element.negate a)
  | toWide a => .ok (Element.toWide a)
  | narrow range a => Element.narrow range a
  | asObject c => Checked.asObject c
  | widen l loggers old new => (l.checkedWiden r loggers old new).map (·.1)

end Step

theorem checkedWiden_eq (l : Lattice) (loggers : Logging.Tree) (old new : Element) :
    (l.checkedWiden r loggers old new).map (·.1) = Checked.widen r l.strategy old new := by
  unfold Lattice.checkedWiden
  cases Checked.widen r l.strategy old new <;> rfl

theorem of_forall_mem_pair {p : Element → Prop} {a b : Element} (h : ∀ e ∈ [a, b], p e) :
    p a ∧ p b :=
  ⟨h a List.mem_cons_self, h b (List.mem_cons_of_mem _ List.mem_cons_self)⟩

/-- What an operation returns on regular elements is regular, whatever is declared at the time. -/
theorem regular_run (hs : (r.hierarchy id).Spelled v.type) {s : Step} {e : Element}
    (hoperands : ∀ a ∈ s.operands, a.Regular id v) (h : s.run r = .ok e) : e.Regular id v := by
  cases s with
  | join a b =>
    obtain ⟨ha, hb⟩ := of_forall_mem_pair hoperands
    exact Checked.regular_join hs ha hb h
  | meet a b =>
    obtain ⟨ha, hb⟩ := of_forall_mem_pair hoperands
    exact Checked.regular_meet ha hb h
  | negate a => exact Except.ok.inj h ▸ regular_negate
  | toWide a => exact Except.ok.inj h ▸ regular_toWide (hoperands a List.mem_cons_self)
  | narrow range a => exact regular_narrow (hoperands a List.mem_cons_self) h
  | asObject c => exact Checked.regular_asObject (hoperands _ List.mem_cons_self) h
  | widen l loggers old new =>
    obtain ⟨hold, hnew⟩ := of_forall_mem_pair hoperands
    rw [Step.run, checkedWiden_eq] at h
    exact Checked.regular_widen hs hold hnew h

/-- On regular elements with short strings no operation ends with a fault. -/
theorem exists_run_eq_ok (hs : (r.hierarchy id).Spelled v.type)
    (hshort : ∀ s, v.text s → Text.unitLength s < Nat.pow 2 31) {s : Step}
    (happlicable : s.Applicable) (hoperands : ∀ a ∈ s.operands, a.Regular id v) :
    ∃ e, s.run r = .ok e := by
  cases s with
  | join a b =>
    obtain ⟨ha, hb⟩ := of_forall_mem_pair hoperands
    exact ⟨_, Checked.join_eq hshort ha hb⟩
  | meet a b =>
    obtain ⟨ha, hb⟩ := of_forall_mem_pair hoperands
    exact ⟨_, Checked.meet_eq hshort ha hb⟩
  | negate a => exact ⟨_, rfl⟩
  | toWide a => exact ⟨_, rfl⟩
  | narrow range a =>
    rcases happlicable with rfl | ⟨t, rfl⟩
    · exact ⟨_, rfl⟩
    · exact ⟨_, rfl⟩
  | asObject c => exact ⟨_, Checked.asObject_eq hshort (hoperands _ List.mem_cons_self)⟩
  | widen l loggers old new =>
    obtain ⟨hold, hnew⟩ := of_forall_mem_pair hoperands
    have hwiden : Checked.widen r l.strategy old new = _ :=
      Checked.widen_eq hshort hold hnew hs
    exact ⟨_, (checkedWiden_eq l loggers old new).trans hwiden⟩

/-! ## Histories -/

/-- The lists of elements, latest first, that an analysis obtains over one hierarchy: each one is
made, or an operation returned it. What is declared may be different at each step. -/
inductive History (id : HierarchyId) (v : Vocabulary) : List Element → Prop where
  | start : History id v []
  | make {es : List Element} {e : Element} : History id v es → Made id v (· ∈ es) e →
      History id v (e :: es)
  | step {es : List Element} {e : Element} (r : Registry) (s : Step) : History id v es →
      (r.hierarchy id).Spelled v.type → s.Applicable → (∀ a ∈ s.operands, a ∈ es) →
      s.run r = .ok e → History id v (e :: es)

/-- What every making and every operation keeps holds of all elements of a history. -/
theorem History.forall_mem {p : Element → Prop}
    (hmake : ∀ {known : Element → Prop} {e : Element}, (∀ a, known a → p a) →
      Made id v known e → p e)
    (hstep : ∀ {r : Registry} {s : Step} {e : Element}, (r.hierarchy id).Spelled v.type →
      (∀ a ∈ s.operands, p a) → s.run r = .ok e → p e)
    {es : List Element} (h : History id v es) : ∀ e ∈ es, p e := by
  -- It holds of what is made or returned last because it does of the elements before it.
  induction h with
  | start => exact fun _ he => nomatch he
  | make _ hmade ih =>
    intro e he
    rcases List.mem_cons.1 he with rfl | he
    · exact hmake ih hmade
    · exact ih e he
  | step r s _ hs _ hoperands hrun ih =>
    intro e he
    rcases List.mem_cons.1 he with rfl | he
    · exact hstep hs (fun a ha => ih a (hoperands a ha)) hrun
    · exact ih e he

/-- Every element of a history is regular. -/
theorem History.regular {es : List Element} (h : History id v es) : ∀ e ∈ es, e.Regular id v :=
  h.forall_mem (fun hknown hmade => hmade.regular hknown) fun hs => regular_run hs

/-- In a history with short strings, every element satisfies the invariant of elements, and every
operation on elements of the history returns an element that prolongs it. -/
theorem history_laws {es : List Element} (h : History id .short es) :
    (∀ e ∈ es, e.Valid) ∧
      ∀ (r : Registry) (s : Step), s.Applicable → (∀ a ∈ s.operands, a ∈ es) →
        ∃ e, s.run r = .ok e ∧ History id .short (e :: es) := by
  refine ⟨fun e he => (h.regular e he).valid, ?_⟩
  intro r s happlicable hoperands
  have hs : (r.hierarchy id).Spelled Vocabulary.short.type := fun _ _ _ => trivial
  have hregular : ∀ a ∈ s.operands, a.Regular id .short :=
    fun a ha => h.regular a (hoperands a ha)
  obtain ⟨e, he⟩ := exists_run_eq_ok hs (fun _ hlength => hlength) happlicable hregular
  exact ⟨e, he, .step r s h hs happlicable hoperands he⟩

/-- Lengths of at most ten. -/
def shortLength : Element := integral ⟨.int, .range 0 10, none⟩

/-- A greeting, the texts of at most ten characters, and the lengths of such texts. -/
def greetings : List Element := [constant greeting, shortText, shortLength]

theorem history_greetings (htype : ∀ name ∈ ["String", "CharSequence"], v.type name)
    (htext : v.text "hello") : History 0 v greetings := by
  have hlength : History 0 v [shortLength] := by
    have hrange : ofRange .int (.range 0 10) = .ok shortLength := by rfl
    exact .make .start (.ofRange (.range 0 10) hrange)
  have hobject : ofObject (.instanceOf textRegistry 0 "CharSequence") .nullable .unknown
      (some (lengthField, shortLength)) false = .ok shortText := by rfl
  have hshort : History 0 v [shortText, shortLength] := by
    refine .make hlength (.ofObject (Constraint.over_instanceOf (htype _ (by decide))) ?_ hobject)
    intro f hf
    obtain rfl := Option.some.inj hf
    exact ⟨v.lengthField_allowed, List.mem_cons_self⟩
  have hsource := ConstraintSource.over_ofHierarchy textRegistry 0 v.type
  exact .make hshort (.ofConcatenation htext (htype _ (by decide)) hsource)

theorem history_laws_greeting :
    History 0 .short greetings ∧ (∀ e ∈ greetings, e.Valid) ∧
      ∃ e, (Step.join shortText (constant greeting)).run textRegistry = .ok e ∧
        History 0 .short (e :: greetings) := by
  have htext : Text.unitLength "hello" < Nat.pow 2 31 := by decide
  have hhistory : History 0 .short greetings := history_greetings (fun _ _ => trivial) htext
  obtain ⟨hvalid, hstep⟩ := history_laws hhistory
  refine ⟨hhistory, hvalid, hstep textRegistry _ trivial ?_⟩
  intro a ha
  simp only [Step.operands, List.mem_cons, List.not_mem_nil, or_false] at ha
  rcases ha with rfl | rfl
  · exact List.mem_cons_of_mem _ List.mem_cons_self
  · exact List.mem_cons_self

end Element

end ValueLattice
