import ValueLattice.Payload
import ValueLattice.Proofs.Numerals

/-!
# Keys of payloads

The key of a payload is the name of its kind and what tells apart the payloads of that kind: a
quoted text, names with marks between them, or the type and the text of a literal. Names are
written as they are, so a mark may occur in them.

* `Literal.sameValue_iff`: the type and the text of a literal determine its value;
* `SameObject`: two payloads have one kind and the same components;
* `key_eq_of_sameObject`, `kindName_eq_of_key_eq`: such payloads have one key, and payloads with one
  key have one kind;
* `sameObject_of_key_eq`: they have the same components if their names are free of the marks that
  would be taken for the ones between them (`Separable`).
-/

namespace ValueLattice

/-! ## Names and literals that are read -/

theorem HostValue.ne_empty_of_name? {v : HostValue} {s : String} (h : v.name? = some s) :
    s ≠ "" := by
  unfold name? at h
  split at h
  · split at h
    · cases h
    · next hempty =>
      rintro rfl
      exact hempty (Option.some.inj h ▸ rfl)
  · cases h

/-- A literal that is read belongs to its type. -/
theorem Literal.inDomain_of_ofTagged? {v : HostValue} {l : Literal} (h : ofTagged? v = some l) :
    l.InDomain := by
  simp only [ofTagged?, Option.bind_eq_bind, Option.bind_eq_some_iff] at h
  obtain ⟨_, _, _, _, hvalue⟩ := h
  exact inDomain_of_ofValue? hvalue

/-! ## Literals -/

theorem PrimitiveType.name_inj {t u : PrimitiveType} (h : t.name = u.name) : t = u := by
  have hfound := ofName?_name t
  rw [h, ofName?_name] at hfound
  exact (Option.some.inj hfound).symm

theorem PrimitiveType.colon_notMem_name (t : PrimitiveType) : ':' ∉ t.name.toList := by
  cases t with
  | narrow type => cases type <;> decide
  | floating width => cases width <;> decide
  | _ => decide

namespace Literal

/-- Two literals have one type and one value. Numbers of a narrow type are compared by the integers
they stand for; floating-point numbers are one value if they are the same number, so the zeros
differ and NaN is itself. -/
def SameValue : Literal → Literal → Prop
  | boolean b, boolean c => b = c
  | narrow t x, narrow u y => t = u ∧ x.toInt? = y.toInt?
  | long m, long n => m = n
  | floating v x, floating w y => v = w ∧ x = y
  | _, _ => False

theorem boolean_text_inj {b c : Bool} (h : Text.boolean b = Text.boolean c) : b = c := by
  revert b c
  decide

/-- The text of a floating-point literal determines its number. -/
theorem floating_text_inj {v w : FloatingWidth} {x y : Double}
    (h : (floating v x).text = (floating w y).text) : x = y := by
  simp only [text] at h
  by_cases hx : x = .negativeZero
  · by_cases hy : y = .negativeZero
    · rw [hx, hy]
    · rw [if_pos hx, if_neg hy] at h
      exact absurd h.symm (Double.text_ne_signedZero y)
  · by_cases hy : y = .negativeZero
    · rw [if_neg hx, if_pos hy] at h
      exact absurd h (Double.text_ne_signedZero x)
    · rw [if_neg hx, if_neg hy] at h
      rcases Double.text_eq_iff.1 h with hxy | ⟨hzero, hzero'⟩
      · exact hxy
      · rw [(Double.isZero_iff.1 hzero).resolve_right hx,
          (Double.isZero_iff.1 hzero').resolve_right hy]

/-- Literals of one type have one value exactly if they have one text. -/
theorem sameValue_iff {l m : Literal} (hl : l.InDomain) (hm : m.InDomain) :
    l.SameValue m ↔ l.type = m.type ∧ l.text = m.text := by
  cases l with
  | boolean b =>
    cases m with
    | boolean c => exact ⟨fun h => ⟨rfl, congrArg Text.boolean h⟩, fun h => boolean_text_inj h.2⟩
    | _ => exact iff_of_false (fun h => h) (fun h => nomatch h.1)
  | narrow t x =>
    cases m with
    | narrow u y =>
      obtain ⟨n, hn, _⟩ := hl
      have hvalue : x.toInt? = y.toInt? ↔ x.text = y.text :=
        (Double.toInt?_eq_iff hn).trans Double.text_eq_iff.symm
      have htype : PrimitiveType.narrow t = .narrow u ↔ t = u :=
        ⟨PrimitiveType.narrow.inj, congrArg _⟩
      exact and_congr htype.symm hvalue
    | _ => exact iff_of_false (fun h => h) (fun h => nomatch h.1)
  | long n =>
    cases m with
    | long k => exact ⟨fun h => ⟨rfl, congrArg Text.integer h⟩, fun h => Text.integer_inj h.2⟩
    | _ => exact iff_of_false (fun h => h) (fun h => nomatch h.1)
  | floating v x =>
    cases m with
    | floating w y =>
      constructor
      · rintro ⟨rfl, rfl⟩
        exact ⟨rfl, rfl⟩
      · exact fun h => ⟨PrimitiveType.floating.inj h.1, floating_text_inj h.2⟩
    | _ => exact iff_of_false (fun h => h) (fun h => nomatch h.1)

end Literal

namespace Payload

variable {p q : Payload}

/-! ## Objects -/

/-- Two payloads stand for one object: they have one kind and the same components. -/
def SameObject : Payload → Payload → Prop
  | string s, string t => s = t
  | enumMember type name, enumMember type' name' => type = type' ∧ name = name'
  | declaredField owner name type, declaredField owner' name' type' =>
    owner = owner' ∧ name = name' ∧ type = type'
  | typeLiteral name, typeLiteral name' => name = name'
  | boxed l, boxed m => l.SameValue m
  | _, _ => False

/-- The names of a payload are free of the marks that would be taken for the ones between them. -/
def Separable : Payload → Prop
  | enumMember _ name => '.' ∉ name.toList
  | declaredField owner name _ => ':' ∉ owner.toList ∧ ':' ∉ name.toList ∧ '.' ∉ name.toList
  | _ => True

/-- A payload that is read is valid. -/
theorem valid_of_ofHost? {v : HostValue} (h : ofHost? v = some p) : p.Valid := by
  simp only [ofHost?, Option.bind_eq_bind, Option.bind_eq_some_iff] at h
  obtain ⟨kind, _, hkind⟩ := h
  simp only [ofKind?, Option.bind_eq_bind] at hkind
  split at hkind
  · obtain ⟨_, _, rfl⟩ := Option.map_eq_some_iff.1 hkind
    trivial
  · split at hkind
    · simp only [Option.bind_eq_some_iff] at hkind
      obtain ⟨type, htype, name, hname, hp⟩ := hkind
      cases hp
      exact ⟨HostValue.ne_empty_of_name? htype, HostValue.ne_empty_of_name? hname⟩
    · split at hkind
      · simp only [Option.bind_eq_some_iff] at hkind
        obtain ⟨owner, howner, name, hname, type, htype, hp⟩ := hkind
        cases hp
        exact ⟨HostValue.ne_empty_of_name? howner, HostValue.ne_empty_of_name? hname,
          HostValue.ne_empty_of_name? htype⟩
      · split at hkind
        · obtain ⟨_, hname, rfl⟩ := Option.map_eq_some_iff.1 hkind
          exact HostValue.ne_empty_of_name? hname
        · split at hkind
          · obtain ⟨_, hliteral, rfl⟩ := Option.map_eq_some_iff.1 hkind
            exact Literal.inDomain_of_ofTagged? hliteral
          · cases hkind

/-! ## Keys -/

/-- The name of the kind of a payload. -/
def kindName : Payload → String
  | string _ => "string"
  | enumMember _ _ => "enum"
  | declaredField _ _ _ => "field"
  | typeLiteral _ => "class"
  | boxed _ => "boxed"

/-- What tells apart the payloads of one kind. -/
def kindKey : Payload → String
  | string value => Text.quoted Text.isControl value
  | enumMember type name => type ++ "." ++ name
  | declaredField owner name type => owner ++ "." ++ name ++ ":" ++ type
  | typeLiteral name => name
  | boxed literal => literal.type.name ++ ":" ++ literal.text

theorem key_eq_kindName (p : Payload) : p.key = p.kindName ++ ":" ++ p.kindKey := by
  cases p <;> simp [key, kindName, kindKey, String.append_assoc]

/-- Payloads with one key have one kind. -/
theorem kindName_eq_of_key_eq (h : p.key = q.key) :
    p.kindName = q.kindName ∧ p.kindKey = q.kindKey := by
  have hcolon (p : Payload) : ':' ∉ p.kindName.toList := by
    cases p <;> simp [kindName]
  rw [key_eq_kindName, key_eq_kindName] at h
  exact Text.append_mark_inj rfl (hcolon p) (hcolon q) h

/-- One object has one key. -/
theorem key_eq_of_sameObject (hp : p.Valid) (hq : q.Valid) (h : p.SameObject q) :
    p.key = q.key := by
  cases p <;> cases q <;> simp only [SameObject] at h
  case boxed.boxed l m =>
    obtain ⟨htype, htext⟩ := (Literal.sameValue_iff hp hq).1 h
    rw [key, key, htype, htext]
  all_goals simp [h]

/-- Payloads with one key are one object if their names are separable. -/
theorem sameObject_of_key_eq (hp : p.Valid) (hq : q.Valid) (hps : p.Separable) (hqs : q.Separable)
    (h : p.key = q.key) : p.SameObject q := by
  obtain ⟨hkind, hkey⟩ := kindName_eq_of_key_eq h
  cases p with
  | string s =>
    cases q with
    | string t => exact Text.quoted_inj hkey
    | _ => simp [kindName] at hkind
  | enumMember type name =>
    cases q with
    | enumMember type' name' => exact Text.append_mark_inj_last rfl hps hqs hkey
    | _ => simp [kindName] at hkind
  | declaredField owner name type =>
    cases q with
    | declaredField owner' name' type' =>
      obtain ⟨howner, hname, hpoint⟩ := hps
      obtain ⟨howner', hname', hpoint'⟩ := hqs
      have hcolon {s t : String} (hs : ':' ∉ s.toList) (ht : ':' ∉ t.toList) :
          ':' ∉ (s ++ "." ++ t).toList := by
        simp [hs, ht]
      -- The type stands behind the first colon, the name behind the last point before it.
      obtain ⟨hmember, htype⟩ :=
        Text.append_mark_inj rfl (hcolon howner hname) (hcolon howner' hname') hkey
      obtain ⟨howners, hnames⟩ := Text.append_mark_inj_last rfl hpoint hpoint' hmember
      exact ⟨howners, hnames, htype⟩
    | _ => simp [kindName] at hkind
  | typeLiteral name =>
    cases q with
    | typeLiteral name' => exact hkey
    | _ => simp [kindName] at hkind
  | boxed l =>
    cases q with
    | boxed m =>
      obtain ⟨htype, htext⟩ := Text.append_mark_inj rfl l.type.colon_notMem_name
        m.type.colon_notMem_name hkey
      exact (Literal.sameValue_iff hp hq).2 ⟨PrimitiveType.name_inj htype, htext⟩
    | _ => simp [kindName] at hkind

end Payload

end ValueLattice
