import Mathlib.Tactic.SplitIfs
import ValueLattice.Proofs.PayloadKeys

/-!
# What is read from host values

Literals and payloads are read from records. Their fields have to be there, any others are ignored,
also in a record that is the value of a field.

* `Extends`: a host value is another one with more fields at any level;
* `Literal.ofTagged?_eq_some_iff`, `Payload.ofHost?_eq_some_iff`: what a literal or a payload is read
  from are the extensions of the record that it is written as, if it is valid;
* `Literal.ofHost?_toHost_eq_some_iff`: so a literal is read from this record exactly if it belongs to
  its type.
-/

namespace ValueLattice

namespace HostValue

variable {u v w : HostValue} {s : String}

/-! ## More fields -/

/-- The second value is the first one with more fields at any level. A field without a value counts
as missing. -/
inductive Extends : HostValue → HostValue → Prop where
  /-- No more fields. -/
  | refl (v : HostValue) : Extends v v
  /-- More fields of a record, or more in the fields that it has. -/
  | record {fields fields' : List (String × HostValue)}
      (hfields : ∀ name, (HostValue.record fields).field name ≠ absent →
        Extends ((HostValue.record fields).field name) ((HostValue.record fields').field name)) :
      Extends (HostValue.record fields) (HostValue.record fields')
  /-- More fields in the items of a list. -/
  | list {items items' : List HostValue} (hlength : items.length = items'.length)
      (hitems : ∀ i, Extends (items.getD i absent) (items'.getD i absent)) :
      Extends (HostValue.list items) (HostValue.list items')

theorem Extends.absent_of (h : u.Extends v) (hv : v = absent) : u = absent := by
  cases h with
  | refl => exact hv
  | record => exact nomatch hv
  | list => exact nomatch hv

theorem Extends.trans (huv : u.Extends v) (hvw : v.Extends w) : u.Extends w := by
  induction huv generalizing w with
  | refl => exact hvw
  | record hfields ih =>
    cases hvw with
    | refl => exact .record hfields
    | record hfields' =>
      refine .record fun name hname => ih name hname (hfields' name ?_)
      exact fun habsent => hname ((hfields name hname).absent_of habsent)
  | list hlength hitems ih =>
    cases hvw with
    | refl => exact .list hlength hitems
    | list hlength' hitems' =>
      exact .list (hlength.trans hlength') fun i => ih i (hitems' i)

/-- Only records have fields. -/
theorem exists_record_of_field {name : String} (h : v.field name ≠ absent) :
    ∃ fields, v = record fields := by
  cases v with
  | record fields => exact ⟨fields, rfl⟩
  | _ => exact absurd rfl h

theorem field_cons {name other : String} {value : HostValue} {fields : List (String × HostValue)} :
    (record ((other, value) :: fields)).field name =
      if name = other then value else (record fields).field name := by
  simp only [field, List.lookup_cons]
  by_cases h : name = other
  · rw [if_pos h, beq_iff_eq.2 h]
    rfl
  · rw [if_neg h, beq_eq_false_iff_ne.2 h]

theorem mem_of_field {name : String} {fields : List (String × HostValue)}
    (h : (record fields).field name ≠ absent) : (name, (record fields).field name) ∈ fields := by
  induction fields with
  | nil => exact absurd rfl h
  | cons f fields ih =>
    rw [field_cons] at h ⊢
    split
    · next hname =>
      rw [hname]
      exact List.mem_cons_self
    · next hname =>
      rw [if_neg hname] at h
      exact List.mem_cons_of_mem _ (ih h)

theorem field_of_mem {f : String × HostValue} {fields : List (String × HostValue)}
    (hnames : (fields.map (·.1)).Nodup) (hf : f ∈ fields) : (record fields).field f.1 = f.2 := by
  induction fields with
  | nil => exact nomatch hf
  | cons g fields ih =>
    obtain ⟨hnew, hrest⟩ := List.nodup_cons.1 hnames
    rw [field_cons]
    rcases List.mem_cons.1 hf with rfl | hf
    · exact if_pos rfl
    · have hother : f.1 ≠ g.1 := fun heq =>
        hnew (List.mem_map.2 ⟨f, hf, heq⟩)
      rw [if_neg hother, ih hrest hf]

/-- The extensions of a record are the values that have an extension of each of its fields. -/
theorem extends_record_iff {fields : List (String × HostValue)} (hne : fields ≠ [])
    (hvalues : ∀ f ∈ fields, f.2 ≠ absent) (hnames : (fields.map (·.1)).Nodup) :
    (record fields).Extends v ↔ ∀ f ∈ fields, f.2.Extends (v.field f.1) := by
  constructor
  · intro h f hf
    have hfield := field_of_mem hnames hf
    cases h with
    | refl => exact hfield ▸ .refl _
    | record hfields => exact hfield ▸ hfields f.1 (hfield.symm ▸ hvalues f hf)
  · intro h
    obtain ⟨first, rest, rfl⟩ := List.exists_cons_of_ne_nil hne
    have hfirst : v.field first.1 ≠ absent := fun habsent =>
      hvalues first List.mem_cons_self ((h first List.mem_cons_self).absent_of habsent)
    obtain ⟨fields', rfl⟩ := exists_record_of_field hfirst
    exact .record fun name hname => h _ (mem_of_field hname)

/-- Texts have no fields. -/
@[simp] theorem text_extends_iff : (text s).Extends v ↔ v = text s := by
  constructor
  · rintro ⟨⟩
    rfl
  · rintro rfl
    exact .refl _

@[simp] theorem text?_eq_some_iff : v.text? = some s ↔ v = text s := by
  cases v <;> simp [text?]

theorem bool?_eq_some_iff {b : Bool} : v.bool? = some b ↔ v = bool b := by
  cases v <;> simp [bool?]

theorem number?_eq_some_iff {x : Double} : v.number? = some x ↔ v = number x := by
  cases v <;> simp [number?]

theorem integer?_eq_some_iff {n : Int} : v.integer? = some n ↔ v = integer n := by
  cases v <;> simp [integer?]

@[simp] theorem name?_eq_some_iff : v.name? = some s ↔ s ≠ "" ∧ v = text s := by
  constructor
  · intro h
    refine ⟨ne_empty_of_name? h, ?_⟩
    unfold name? at h
    split at h
    · split at h
      · cases h
      · rw [Option.some.inj h]
    · cases h
  · rintro ⟨hne, rfl⟩
    exact name?_text hne

end HostValue

/-! ## Literals -/

theorem PrimitiveType.name_of_ofName? {name : String} {t : PrimitiveType}
    (h : ofName? name = some t) : t.name = name := by
  have hfound := List.find?_some h
  exact eq_of_beq hfound

namespace Literal

variable {v w : HostValue} {l m : Literal} {t : PrimitiveType}

/-- A value of a type is read as the literal with this type and this value, if it belongs to the
type. -/
theorem ofValue?_eq_some_iff : ofValue? t v = some l ↔ l.InDomain ∧ l.type = t ∧ l.value = v := by
  constructor
  · intro h
    refine ⟨inDomain_of_ofValue? h, ?_⟩
    cases t with
    | boolean =>
      obtain ⟨b, hb, rfl⟩ := Option.map_eq_some_iff.1 h
      exact ⟨rfl, (HostValue.bool?_eq_some_iff.1 hb).symm⟩
    | narrow type =>
      simp only [ofValue?, Option.bind_eq_bind, Option.bind_eq_some_iff] at h
      obtain ⟨x, hx, n, _, h⟩ := h
      split at h
      · cases h
        exact ⟨rfl, (HostValue.number?_eq_some_iff.1 hx).symm⟩
      · cases h
    | long =>
      simp only [ofValue?, Option.bind_eq_bind, Option.bind_eq_some_iff] at h
      obtain ⟨n, hn, h⟩ := h
      split at h
      · cases h
        exact ⟨rfl, (HostValue.integer?_eq_some_iff.1 hn).symm⟩
      · cases h
    | floating width =>
      obtain ⟨x, hx, rfl⟩ := Option.map_eq_some_iff.1 h
      exact ⟨rfl, (HostValue.number?_eq_some_iff.1 hx).symm⟩
  · rintro ⟨hl, rfl, rfl⟩
    exact ofValue?_value hl

/-- The value of a literal has no fields. -/
theorem value_extends_iff : l.value.Extends v ↔ v = l.value := by
  constructor
  · cases l <;> exact fun h => by cases h; rfl
  · rintro rfl
    exact .refl _

theorem value_ne_absent (l : Literal) : l.value ≠ .absent := by
  cases l <;> exact HostValue.noConfusion

theorem toHost_extends_iff : l.toHost.Extends v ↔
    v.field "type" = .text l.type.name ∧ v.field "value" = l.value := by
  rw [toHost, HostValue.extends_record_iff (by simp) (by simp [value_ne_absent]) (by simp)]
  simp [value_extends_iff]

/-- What a literal is read from as a record are the extensions of the record that it is written as,
if it belongs to its type. -/
theorem ofTagged?_eq_some_iff : ofTagged? v = some l ↔ l.InDomain ∧ l.toHost.Extends v := by
  rw [toHost_extends_iff]
  constructor
  · intro h
    simp only [ofTagged?, Option.bind_eq_bind, Option.bind_eq_some_iff] at h
    obtain ⟨name, hname, t, ht, hvalue⟩ := h
    obtain ⟨hl, rfl, hv⟩ := ofValue?_eq_some_iff.1 hvalue
    refine ⟨hl, ?_, hv.symm⟩
    rw [HostValue.text?_eq_some_iff.1 hname, PrimitiveType.name_of_ofName? ht]
  · rintro ⟨hl, htype, hvalue⟩
    have htext : (v.field "type").text? = some l.type.name := HostValue.text?_eq_some_iff.2 htype
    simp [ofTagged?, htext, hvalue, ofValue?_value hl]

/-- What is read as a record is read as a value of any kind. -/
theorem ofHost?_of_ofTagged? (h : ofTagged? v = some l) : ofHost? v = some l := by
  cases v with
  | bool b => exact nomatch h
  | integer n => exact nomatch h
  | _ => exact h

/-- A literal is read from a record, or it is the truth value or the integer that is given. -/
theorem ofHost?_cases (h : ofHost? v = some l) :
    ofTagged? v = some l ∨ (∃ b, v = .bool b ∧ l = boolean b) ∨
      ∃ n, v = .integer n ∧ l = long n := by
  cases v with
  | bool b => exact .inr (.inl ⟨b, rfl, (Option.some.inj h).symm⟩)
  | integer n => exact .inr (.inr ⟨n, rfl, (Option.some.inj h).symm⟩)
  | _ => exact .inl h

/-- A literal is read from the record that it is written as exactly if it belongs to its type. -/
theorem ofHost?_toHost_eq_some_iff : ofHost? l.toHost = some l ↔ l.InDomain := by
  show ofTagged? l.toHost = some l ↔ _
  rw [ofTagged?_eq_some_iff]
  exact and_iff_left (.refl _)

theorem eq_of_type_of_value (htype : l.type = m.type) (hvalue : l.value = m.value) : l = m := by
  cases l <;> cases m <;> simp_all [type, value]

/-- Nothing else is read from this record. -/
theorem isSome_ofHost?_toHost_iff : (ofHost? l.toHost).isSome = true ↔ l.InDomain := by
  constructor
  · intro h
    obtain ⟨m, hm⟩ := Option.isSome_iff_exists.1 h
    obtain ⟨hdomain, hextends⟩ := ofTagged?_eq_some_iff.1 (show ofTagged? l.toHost = some m from hm)
    obtain ⟨htype, hvalue⟩ := toHost_extends_iff.1 hextends
    have hname : l.type.name = m.type.name := HostValue.text.inj htype
    rwa [eq_of_type_of_value (PrimitiveType.name_inj hname) hvalue]
  · intro h
    rw [ofHost?_toHost_eq_some_iff.2 h]
    rfl

end Literal

/-! ## Payloads -/

namespace Payload

variable {v : HostValue} {p : Payload}

/-- A payload of a kind is read from records of this kind. -/
theorem kindName_of_ofKind? {kind : String} (h : ofKind? kind v = some p) : p.kindName = kind := by
  simp only [ofKind?, Option.bind_eq_bind] at h
  split_ifs at h with hstring henum hfield hclass hboxed
  · obtain ⟨_, _, rfl⟩ := Option.map_eq_some_iff.1 h
    exact hstring.symm
  · simp only [Option.bind_eq_some_iff] at h
    obtain ⟨_, _, _, _, hp⟩ := h
    cases hp
    exact henum.symm
  · simp only [Option.bind_eq_some_iff] at h
    obtain ⟨_, _, _, _, _, _, hp⟩ := h
    cases hp
    exact hfield.symm
  · obtain ⟨_, _, rfl⟩ := Option.map_eq_some_iff.1 h
    exact hclass.symm
  · obtain ⟨_, _, rfl⟩ := Option.map_eq_some_iff.1 h
    exact hboxed.symm

theorem ofHost?_eq_some_iff_kind :
    ofHost? v = some p ↔ v.field "kind" = .text p.kindName ∧ ofKind? p.kindName v = some p := by
  simp only [ofHost?, Option.bind_eq_bind, Option.bind_eq_some_iff, HostValue.text?_eq_some_iff]
  constructor
  · rintro ⟨kind, hkind, h⟩
    obtain rfl := kindName_of_ofKind? h
    exact ⟨hkind, h⟩
  · exact fun h => ⟨_, h⟩

/-- What a payload is read from are the extensions of the record that it is written as, if it is
valid. -/
theorem ofHost?_eq_some_iff : ofHost? v = some p ↔ p.Valid ∧ p.toHost.Extends v := by
  rw [ofHost?_eq_some_iff_kind]
  cases p with
  | string s =>
    rw [toHost, HostValue.extends_record_iff (by simp) (by simp) (by simp)]
    simp [ofKind?, kindName, Valid]
  | enumMember type name =>
    rw [toHost, HostValue.extends_record_iff (by simp) (by simp) (by simp)]
    simp [ofKind?, kindName, Valid, Option.bind_eq_some_iff, and_assoc, and_left_comm]
  | declaredField owner name type =>
    rw [toHost, HostValue.extends_record_iff (by simp) (by simp) (by simp)]
    simp [ofKind?, kindName, Valid, Option.bind_eq_some_iff, and_assoc, and_left_comm]
  | typeLiteral name =>
    rw [toHost, HostValue.extends_record_iff (by simp) (by simp) (by simp)]
    simp [ofKind?, kindName, Valid, and_left_comm]
  | boxed l =>
    rw [toHost, HostValue.extends_record_iff (by simp) (by simp [Literal.toHost]) (by simp)]
    simp [ofKind?, kindName, Valid, Literal.ofTagged?_eq_some_iff, and_left_comm]

end Payload

end ValueLattice
