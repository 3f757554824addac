import ValueLattice.Proofs.Elements.Histories
import ValueLattice.Proofs.FloatingSetMembers

/-!
# The members of floating-point elements

An analysis makes floating-point elements of numbers that are rounded to the width, and every
operation makes its results of the numbers of its operands.

* `Rounded`: the invariant, `rounded_run`: what one operation returns, `History.rounded`: what an
  analysis obtains;
* `floating_members`: the order, the meet and the join of floating-point elements agree with
  membership.
-/

namespace ValueLattice.Element

variable {r : Registry} {id : HierarchyId} {v : Vocabulary}

/-- An element that is a set of floating-point numbers is made of numbers of its width. -/
def Rounded : Element → Prop
  | floating w s => s.OfWidth w
  | _ => True

/-! ## What is made -/

theorem rounded_elim {α : Type} {f : α → Element} {s : Option α}
    (h : ∀ t ∈ s, (f t).Rounded) : (s.elim bottom f).Rounded := by
  cases s with
  | none => trivial
  | some t => exact h t rfl

theorem rounded_ofIntegral? (s : Option IntegralSet) : (ofIntegral? s).Rounded :=
  rounded_elim fun _ _ => trivial

theorem rounded_ofDouble (w : FloatingWidth) (x : Double) : (ofDouble w x).Rounded :=
  FloatingSet.ofWidth_only x

theorem rounded_ofExcluded (w : FloatingWidth) (xs : List Double) : (ofExcluded w xs).Rounded := by
  refine FloatingSet.ofWidth_excluding fun y hy => ?_
  obtain ⟨x, _, rfl⟩ := List.mem_map.1 hy
  exact w.round_round x

theorem rounded_ofObject {c : Constraint} {n : Nullability} {m : Mutability}
    {field : Option (String × Element)} {isLocal : Bool} {e : Element}
    (h : ofObject c n m field isLocal = .ok e) : e.Rounded := by
  obtain ⟨_, _, _, rfl⟩ := ofObject_eq_ok h
  trivial

theorem rounded_ofPrimitive {h : HostValue} {e : Element} (he : ofPrimitive h = .ok e) :
    e.Rounded := by
  rcases ofPrimitive_eq_ok he with ⟨b, rfl⟩ | ⟨w, n, _, rfl⟩ | ⟨w, x, rfl⟩
  · trivial
  · trivial
  · exact rounded_ofDouble w x

theorem rounded_ofPayload {h : HostValue} {c : Constraint} {synthesized : Bool} {e : Element}
    (he : ofPayload h c synthesized = .ok e) : e.Rounded := by
  obtain ⟨_, _, rfl⟩ := ofPayload_eq_ok he
  trivial

theorem rounded_ofHostValue {h : HostValue} {reference : Except Fault Element} {e : Element}
    (hreference : reference = .ok e → e.Rounded) (he : ofHostValue h reference = .ok e) :
    e.Rounded := by
  rcases ofHostValue_eq_ok he with rfl | he | he
  · trivial
  · exact rounded_ofPrimitive he
  · exact hreference he

theorem rounded_defaultOf (t : HostType) : (defaultOf t).Rounded := by
  match t with
  | .primitive (.floating w) => exact rounded_ofDouble w .zero
  | .primitive .boolean | .primitive (.narrow _) | .primitive .long => trivial
  | .void | .null | .reference _ => trivial

theorem rounded_ofPrimitiveType (type : PrimitiveType) : (ofPrimitiveType type).Rounded := by
  cases type with
  | narrow type => exact rounded_ofIntegral? _
  | floating w => exact FloatingSet.ofWidth_of_numbers_eq_nil rfl
  | _ => trivial

/-- What the functions that make elements return is made of rounded numbers. -/
theorem Made.rounded {known : Element → Prop} {e : Element} (he : Made id v known e) :
    e.Rounded := by
  cases he with
  | anyFloating w => exact FloatingSet.ofWidth_of_numbers_eq_nil rfl
  | floatingZeros w => exact FloatingSet.ofWidth_of_numbers_eq_nil rfl
  | ofRangeWithWide wide _ _ => exact rounded_ofIntegral? _
  | ofRange _ h =>
    obtain ⟨_, rfl⟩ := ofRange_eq_ok h
    exact rounded_ofIntegral? _
  | ofRangeClamped w range => exact rounded_ofIntegral? _
  | ofInt h =>
    obtain ⟨_, _, rfl⟩ := ofInt_eq_ok h
    trivial
  | ofLong h =>
    obtain ⟨_, rfl⟩ := ofLong_eq_ok h
    trivial
  | ofDouble w x => exact rounded_ofDouble w x
  | ofExcluded w xs => exact rounded_ofExcluded w xs
  | ofObject _ _ h => exact rounded_ofObject h
  | ofPrimitive h => exact rounded_ofPrimitive h
  | ofConstant _ _ _ h => exact rounded_ofHostValue rounded_ofPayload h
  | ofConstantLike _ _ h =>
    refine rounded_ofHostValue (fun h => ?_) h
    split at h
    · exact rounded_ofPayload h
    · exact nomatch h
  | ofReferenceConstant _ _ _ h => exact rounded_ofPayload h
  | defaultOf t => exact rounded_defaultOf t
  | ofHostType _ _ h =>
    rcases ofHostType_eq_ok h with rfl | rfl | rfl | ⟨type, rfl⟩ | ⟨_, _, h⟩
    · trivial
    · trivial
    · trivial
    · exact rounded_ofPrimitiveType type
    · exact rounded_ofObject h
  | _ => trivial

/-! ## What the operations return -/

theorem rounded_orNull {shape : ObjectShape} {field : Option (String × Element)} {e : Element}
    (h : Checked.orNull shape field = .ok e) : e.Rounded := by
  unfold Checked.orNull at h
  split at h
  · exact Except.ok.inj h ▸ trivial
  · exact rounded_ofObject h

theorem rounded_joinReferences {s t : ObjectShape} {f : Option (String × Element)} {b e : Element}
    {joined : Except Fault (Option (String × Element))} (hb : b.Rounded)
    (h : Checked.joinReferences r s f b t joined = .ok e) : e.Rounded := by
  obtain ⟨_, _, h⟩ := Checked.bind_eq_ok h
  split at h
  · exact Except.ok.inj h ▸ trivial
  · obtain ⟨_, _, h⟩ := Checked.bind_eq_ok h
    split at h
    · exact Except.ok.inj h ▸ hb
    · obtain ⟨_, _, h⟩ := Checked.bind_eq_ok h
      exact rounded_ofObject h

theorem rounded_join {a b e : Element} (ha : a.Rounded) (hb : b.Rounded)
    (h : Checked.join r a b = .ok e) : e.Rounded := by
  -- References join to references, so nothing is to be shown of the values of their fields.
  cases a using inductionOnFields with
  | top => exact Except.ok.inj h ▸ trivial
  | bottom => exact Except.ok.inj h ▸ hb
  | boolean s =>
    obtain rfl := Except.ok.inj h
    cases b <;> trivial
  | integral s =>
    obtain rfl := Except.ok.inj h
    cases b with
    | integral t =>
      rw [integral_join, joinIntegral_integral]
      split
      · exact rounded_ofIntegral? _
      · trivial
    | _ => trivial
  | floating w s =>
    obtain rfl := Except.ok.inj h
    cases b with
    | bottom => exact ha
    | floating w' t =>
      rw [join_floating_floating]
      split
      · next hw => exact FloatingSet.ofWidth_join ha (hw ▸ hb)
      · trivial
    | _ => trivial
  | null =>
    cases b with
    | object shape field => exact rounded_orNull h
    | constant c =>
      obtain ⟨_, _, h⟩ := Checked.bind_eq_ok h
      exact rounded_orNull h
    | _ => exact Except.ok.inj h ▸ trivial
  | object shape field =>
    cases b with
    | null =>
      rw [Checked.join_object_null] at h
      exact rounded_orNull h
    | object shape' field' =>
      rw [Checked.join_object_object] at h
      exact rounded_joinReferences hb h
    | constant c =>
      rw [Checked.join_object_constant] at h
      obtain ⟨_, _, h⟩ := Checked.bind_eq_ok h
      exact rounded_joinReferences hb h
    | _ => rcases field with _ | ⟨name, value⟩ <;> exact Except.ok.inj h ▸ trivial
  | constant c =>
    cases b with
    | null =>
      obtain ⟨_, _, h⟩ := Checked.bind_eq_ok h
      exact rounded_orNull h
    | object shape field =>
      obtain ⟨_, _, h⟩ := Checked.bind_eq_ok h
      split at h
      · exact Except.ok.inj h ▸ trivial
      · obtain ⟨_, _, h⟩ := Checked.bind_eq_ok h
        exact rounded_ofObject h
    | constant d =>
      rw [Checked.join] at h
      split at h
      · exact Except.ok.inj h ▸ trivial
      · split at h
        · exact Except.ok.inj h ▸ trivial
        · obtain ⟨_, _, h⟩ := Checked.bind_eq_ok h
          obtain ⟨_, _, h⟩ := Checked.bind_eq_ok h
          exact rounded_ofObject h
    | _ => exact Except.ok.inj h ▸ trivial

theorem rounded_meetReferences {s t : ObjectShape} {f g : Option (String × Element)} {e : Element}
    {met : Except Fault (Option (Option (String × Element)))}
    (h : Checked.meetReferences r s f t g met = .ok e) : e.Rounded := by
  have hnone : (meetNone s t).Rounded := by
    unfold meetNone
    split <;> trivial
  obtain ⟨_, _, h⟩ := Checked.bind_eq_ok h
  split at h
  · exact Except.ok.inj h ▸ trivial
  · obtain ⟨_, _, h⟩ := Checked.bind_eq_ok h
    split at h
    · exact Except.ok.inj h ▸ trivial
    · split at h
      · exact Except.ok.inj h ▸ hnone
      · obtain ⟨field, _, h⟩ := Checked.bind_eq_ok h
        match field with
        | none => exact Except.ok.inj h ▸ hnone
        | some field => exact rounded_ofObject h

theorem rounded_meet {a b e : Element} (ha : a.Rounded) (hb : b.Rounded)
    (h : Checked.meet r a b = .ok e) : e.Rounded := by
  cases a using inductionOnFields with
  | top => exact Except.ok.inj h ▸ hb
  | bottom => exact Except.ok.inj h ▸ trivial
  | boolean s =>
    obtain rfl := Except.ok.inj h
    cases b with
    | boolean t => exact rounded_elim fun _ _ => trivial
    | _ => trivial
  | integral s =>
    obtain rfl := Except.ok.inj h
    cases b with
    | integral t =>
      rw [meet_integral_integral]
      split
      · exact rounded_ofIntegral? _
      · trivial
    | _ => trivial
  | floating w s =>
    obtain rfl := Except.ok.inj h
    cases b with
    | top => exact ha
    | floating w' t =>
      rw [meet_floating_floating]
      split
      · next hw => exact rounded_elim fun _ hu => FloatingSet.ofWidth_meet? ha (hw ▸ hb) hu
      · trivial
    | _ => trivial
  | null =>
    obtain rfl := Except.ok.inj h
    cases b with
    | object shape field =>
      rw [meet_null_object]
      split <;> trivial
    | _ => trivial
  | object shape field =>
    cases b with
    | null =>
      rw [Checked.meet_object_null] at h
      rw [← Except.ok.inj h]
      split <;> trivial
    | object shape' field' =>
      rw [Checked.meet_object_object] at h
      exact rounded_meetReferences h
    | constant c =>
      rw [Checked.meet_object_constant] at h
      obtain ⟨_, _, h⟩ := Checked.bind_eq_ok h
      split at h <;> exact Except.ok.inj h ▸ trivial
    | _ => rcases field with _ | ⟨name, value⟩ <;> exact Except.ok.inj h ▸ trivial
  | constant c =>
    cases b with
    | object shape field =>
      obtain ⟨_, _, h⟩ := Checked.bind_eq_ok h
      split at h <;> exact Except.ok.inj h ▸ trivial
    | constant d =>
      obtain rfl := Except.ok.inj h
      rw [meet_constant_constant]
      split
      · trivial
      · split <;> trivial
    | _ => exact Except.ok.inj h ▸ trivial

theorem rounded_negate {a : Element} (ha : a.Rounded) : (negate a).Rounded := by
  cases a using inductionOnFields with
  | boolean s => exact rounded_elim fun _ _ => trivial
  | integral s => exact rounded_ofIntegral? _
  | floating w s => exact rounded_elim fun _ hu => FloatingSet.ofWidth_negate? ha hu
  | object shape field =>
    rcases field with _ | ⟨name, value⟩
    · show (if shape = notNullShape then null else bottom : Element).Rounded
      split <;> trivial
    · trivial
  | _ => trivial

theorem rounded_toWide {a : Element} (ha : a.Rounded) : (toWide a).Rounded := by
  cases a with
  | integral s => exact rounded_ofIntegral? _
  | _ => exact ha

theorem rounded_narrow {a e : Element} {range : RangeSet} (h : narrow range a = .ok e) :
    e.Rounded := by
  cases a with
  | bottom => exact Except.ok.inj h ▸ trivial
  | integral s => exact Except.ok.inj h ▸ rounded_ofIntegral? _
  | _ => exact nomatch h

theorem rounded_widen {strategy : Strategy} {old new e : Element} (hold : old.Rounded)
    (hnew : new.Rounded) (h : Checked.widen r strategy old new = .ok e) : e.Rounded := by
  obtain ⟨joined, hjoined, h⟩ := Checked.bind_eq_ok h
  have hrounded := rounded_join hold hnew hjoined
  cases joined with
  | integral s =>
    obtain ⟨_, _, h⟩ := Checked.bind_eq_ok h
    split at h
    · exact Except.ok.inj h ▸ trivial
    · rw [← Except.ok.inj h]
      unfold widenTarget
      split
      · exact rounded_ofIntegral? _
      · trivial
  | _ => exact Except.ok.inj h ▸ hrounded

/-- What an operation returns on elements of rounded numbers is made of rounded numbers. -/
theorem rounded_run {s : Step} {e : Element} (hoperands : ∀ a ∈ s.operands, a.Rounded)
    (h : s.run r = .ok e) : e.Rounded := by
  cases s with
  | join a b =>
    obtain ⟨ha, hb⟩ := of_forall_mem_pair hoperands
    exact rounded_join ha hb h
  | meet a b =>
    obtain ⟨ha, hb⟩ := of_forall_mem_pair hoperands
    exact rounded_meet ha hb h
  | negate a => exact Except.ok.inj h ▸ rounded_negate (hoperands a List.mem_cons_self)
  | toWide a => exact Except.ok.inj h ▸ rounded_toWide (hoperands a List.mem_cons_self)
  | narrow range a => exact rounded_narrow h
  | asObject c =>
    obtain ⟨_, _, h⟩ := Checked.bind_eq_ok h
    exact rounded_ofObject h
  | widen l loggers old new =>
    obtain ⟨hold, hnew⟩ := of_forall_mem_pair hoperands
    rw [Step.run, checkedWiden_eq] at h
    exact rounded_widen hold hnew h

/-- The floating-point elements of a history are made of rounded numbers. -/
theorem History.rounded {es : List Element} (h : History id v es) : ∀ e ∈ es, e.Rounded :=
  h.forall_mem (fun _ hmade => hmade.rounded) fun _ => rounded_run

/-! ## Members -/

/-- Whether a number belongs to an element. Only floating-point elements are asked, so `bottom` has
no numbers. -/
def HasNumber (r : Registry) (x : Double) (e : Element) : Prop :=
  containsNumber r x e = .ok true

theorem hasNumber_floating {w : FloatingWidth} {s : FloatingSet} {x : Double} :
    HasNumber r x (floating w s) ↔ s.contains x = true :=
  ⟨Except.ok.inj, congrArg Except.ok⟩

theorem hasNumber_ofFloating? {w : FloatingWidth} {s : Option FloatingSet} {x : Double} :
    HasNumber r x (ofFloating? w s) ↔ ∃ u, s = some u ∧ u.contains x = true := by
  cases s with
  | none => exact ⟨fun h => (nomatch h), fun ⟨_, h, _⟩ => (nomatch h)⟩
  | some u =>
    rw [show ofFloating? w (some u) = floating w u from rfl, hasNumber_floating]
    exact ⟨fun h => ⟨u, rfl, h⟩, fun ⟨_, hu, h⟩ => Option.some.inj hu ▸ h⟩

theorem ofFloating?_cases (w : FloatingWidth) (s : Option FloatingSet) :
    ofFloating? w s = bottom ∨ ∃ u, ofFloating? w s = floating w u := by
  cases s with
  | none => exact .inl rfl
  | some u => exact .inr ⟨u, rfl⟩

/-- The order, the meet and the join of floating-point elements of one width agree with membership.
Their meet has the common numbers of both elements. Their join has the numbers of both, and no
others where the union of the sets has a form. To round the numbers of the results again changes
nothing. -/
theorem floating_members {es : List Element} (h : History id v es) {w : FloatingWidth}
    {s t : FloatingSet} (hs : floating w s ∈ es) (ht : floating w t ∈ es) (r : Registry) :
    (Checked.covers r (floating w s) (floating w t) = .ok true →
        ∀ x, HasNumber r x (floating w t) → HasNumber r x (floating w s)) ∧
      (∃ m, Checked.meet r (floating w s) (floating w t) = .ok m ∧
        (m = bottom ∨ ∃ u, m = floating w u) ∧
        ∀ x, HasNumber r x m ↔
          HasNumber r x (floating w s) ∧ HasNumber r x (floating w t)) ∧
      (∃ u, Checked.join r (floating w s) (floating w t) = .ok (floating w u) ∧
        (∀ x, HasNumber r x (floating w s) ∨ HasNumber r x (floating w t) →
          HasNumber r x (floating w u)) ∧
        (s.HasForm t → ∀ x, HasNumber r x (floating w u) →
          HasNumber r x (floating w s) ∨ HasNumber r x (floating w t))) ∧
      FloatingSet.roundedMeet? w s t = s.meet? t ∧ FloatingSet.roundedJoin w s t = s.join t := by
  have hsv : s.Valid := h.regular _ hs
  have htv : t.Valid := h.regular _ ht
  have hsw : s.OfWidth w := h.rounded _ hs
  have htw : t.OfWidth w := h.rounded _ ht
  have hmeet : Checked.meet r (floating w s) (floating w t) = .ok (ofFloating? w (s.meet? t)) :=
    congrArg Except.ok ((meet_floating_floating w w s t).trans (if_pos rfl))
  have hjoin : Checked.join r (floating w s) (floating w t) = .ok (floating w (s.join t)) :=
    congrArg Except.ok ((join_floating_floating w w s t).trans (if_pos rfl))
  refine ⟨?_, ⟨_, hmeet, ofFloating?_cases w _, ?_⟩, ⟨_, hjoin, ?_, ?_⟩,
    FloatingSet.roundedMeet?_eq hsw htw, FloatingSet.roundedJoin_eq hsw htw⟩
  · intro hcovers x hx
    obtain ⟨_, hst⟩ := Bool.and_eq_true_iff.1 (Except.ok.inj hcovers)
    exact hasNumber_floating.2 (FloatingSet.contains_of_covers hst (hasNumber_floating.1 hx))
  · intro x
    rw [hasNumber_ofFloating?, hasNumber_floating, hasNumber_floating]
    exact FloatingSet.exists_meet?_contains_iff hsv htv
  · intro x hx
    exact hasNumber_floating.2 (FloatingSet.contains_join hsv htv
      (hx.imp hasNumber_floating.1 hasNumber_floating.1))
  · intro hform x hx
    exact (FloatingSet.contains_of_contains_join hform (hasNumber_floating.1 hx)).imp
      hasNumber_floating.2 hasNumber_floating.2

/-- All numbers but the negative zero and NaN. -/
def mostNumbers : FloatingSet := .allBut [.negativeZero, .nan]

theorem ofExcluded_mostNumbers :
    ofExcluded .float [.nan, .negativeZero] = floating .float mostNumbers := by
  have hround : ∀ x ∈ [Double.nan, Double.negativeZero], FloatingWidth.float.round x = x := by
    intro x hx
    rcases List.mem_cons.1 hx with rfl | hx
    · rfl
    · rw [List.mem_singleton.1 hx]
      exact FloatingWidth.float.round_of_isZero rfl
  exact congrArg (floating .float) (FloatingSet.roundedExcluding_eq hround)

theorem history_mostNumbers :
    History id v [floating .float mostNumbers, floating .float .zeros] := by
  have hzeros : History id v [floating .float .zeros] := .make .start (.floatingZeros .float)
  exact .make hzeros (ofExcluded_mostNumbers ▸ .ofExcluded .float _)

theorem floating_members_mostNumbers :
    History 0 .any [floating .float mostNumbers, floating .float .zeros] ∧
      mostNumbers.HasForm .zeros ∧
      (∃ m, Checked.meet textRegistry (floating .float mostNumbers) (floating .float .zeros) =
          .ok m ∧
        ∀ x, HasNumber textRegistry x m ↔
          HasNumber textRegistry x (floating .float mostNumbers) ∧
            HasNumber textRegistry x (floating .float .zeros)) ∧
      ∃ u, Checked.join textRegistry (floating .float mostNumbers) (floating .float .zeros) =
          .ok (floating .float u) ∧
        ∀ x, HasNumber textRegistry x (floating .float u) ↔
          HasNumber textRegistry x (floating .float mostNumbers) ∨
            HasNumber textRegistry x (floating .float .zeros) := by
  have hhistory : History 0 .any [floating .float mostNumbers, floating .float .zeros] :=
    history_mostNumbers
  have hform : mostNumbers.HasForm .zeros := .inl ⟨_, rfl⟩
  obtain ⟨_, ⟨m, hmeet, _, hm⟩, ⟨u, hjoin, hof, hto⟩, _⟩ :=
    floating_members hhistory List.mem_cons_self
      (List.mem_cons_of_mem _ List.mem_cons_self) textRegistry
  exact ⟨hhistory, hform, ⟨m, hmeet, hm⟩, u, hjoin, fun x => ⟨hto hform x, hof x⟩⟩

/-- Of the two zeros the positive one is left, and all numbers but NaN are joined. -/
example : meet textRegistry (floating .float mostNumbers) (floating .float .zeros) =
      floating .float (.only .zero) ∧
    join textRegistry (floating .float mostNumbers) (floating .float .zeros) =
      floating .float (.allBut [.nan]) := ⟨rfl, rfl⟩

end ValueLattice.Element
