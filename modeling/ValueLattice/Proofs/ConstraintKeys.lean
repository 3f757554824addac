import ValueLattice.Proofs.Constraints

/-!
# Constraints told apart by their keys

A hierarchy that is still growing makes constraints at different times, and what was normal may no
longer be. What stays is that they are constraints over that hierarchy, which name something:

* `Over`: constraints over a hierarchy with names of a kind, kept by `over_join` and `over_meet`
  whatever is declared at the time;
* `key_inj`: where the names are free of `&`, the key of such a constraint determines it.
-/

namespace ValueLattice.Constraint

variable {r : Registry} {id : HierarchyId} {p : String → Prop}

/-! ## Constraints over a hierarchy -/

theorem over_instanceOf {name : String} (hname : p name) : (instanceOf r id name).Over id p :=
  (normal_ofBounds fun _ hn _ => List.mem_singleton.1 hn ▸ hname).over

theorem over_exactly {name : String} (hname : p name) : (exactly id name).Over id p :=
  ⟨rfl, List.cons_ne_nil _ _, fun _ hn => List.mem_singleton.1 hn ▸ hname⟩

/-- Joins name supertypes, so these have to be spelled as the names of the operands are. -/
theorem over_join (hs : (r.hierarchy id).Spelled p) {x y : Constraint} (hx : x.Over id p)
    (hy : y.Over id p) : (x.join r y).Over id p := by
  rcases join_forms hs hx hy with hjoin | hjoin | ⟨names, hnames, hjoin⟩
  · rw [hjoin]
    exact hx
  · rw [hjoin]
    exact hy
  · rw [hjoin]
    exact (normal_ofBounds hnames).over

theorem over_meet {x y : Constraint} (hx : x.Over id p) (hy : y.Over id p) :
    (x.meet r y).Over id p := by
  rcases meet_forms hx hy with hmeet | hmeet | hmeet | ⟨names, hnames, hmeet⟩
  · rw [hmeet]
    exact hx
  · rw [hmeet]
    exact hy
  · rw [hmeet]
    trivial
  · rw [hmeet]
    exact (normal_ofBounds hnames).over

/-! ## Keys -/

/-- Names are listed in a key with `&` between them, so names without `&` can be told from it. -/
theorem key_inj (hp : ∀ name, p name → '&' ∉ name.toList) {x y : Constraint} (hx : x.Over id p)
    (hy : y.Over id p) (h : x.key = y.key) : x = y := by
  have hlist := congrArg String.toList h
  -- Keys of different kinds differ in their first characters.
  match x, y with
  | .top, .top => rfl
  | .bottom, .bottom => rfl
  | .top, .bottom | .bottom, .top => simp [key] at hlist
  | .top, .nominal _ (.exact _) | .top, .nominal _ (.bounds _) => simp [key] at hlist
  | .bottom, .nominal _ (.exact _) | .bottom, .nominal _ (.bounds _) => simp [key] at hlist
  | .nominal _ (.exact _), .top | .nominal _ (.bounds _), .top => simp [key] at hlist
  | .nominal _ (.exact _), .bottom | .nominal _ (.bounds _), .bottom => simp [key] at hlist
  | .nominal _ (.exact _), .nominal _ (.bounds _) => simp [key] at hlist
  | .nominal _ (.bounds _), .nominal _ (.exact _) => simp [key] at hlist
  | .nominal _ (.exact a), .nominal _ (.exact b) =>
    have hab : a = b := (String.append_right_inj _).1 h
    rw [hab, hx.1, hy.1]
  | .nominal _ (.bounds xs), .nominal _ (.bounds ys) =>
    have hjoined : "&".intercalate xs = "&".intercalate ys := (String.append_right_inj _).1 h
    have hxy : xs = ys := Text.intercalate_inj (c := '&') rfl hx.2.1 hy.2.1
      (fun name hname => hp name (hx.2.2 name hname))
      (fun name hname => hp name (hy.2.2 name hname)) hjoined
    rw [hxy, hx.1, hy.1]

theorem bar_notMem_key (hp : ∀ name, p name → '|' ∉ name.toList) {x : Constraint}
    (hx : x.Over id p) : '|' ∉ x.key.toList := by
  match x with
  | .top => decide
  | .bottom => decide
  | .nominal _ (.exact name) =>
    have hname := hp name (hx.2.2 name (List.mem_singleton_self name))
    simp only [key, String.toList_append, List.mem_append, not_or]
    exact ⟨by decide, hname⟩
  | .nominal _ (.bounds names) =>
    simp only [key, String.toList_append, List.mem_append, not_or]
    refine ⟨by decide, ?_⟩
    intro h
    rcases Text.mem_intercalate h with h | ⟨name, hname, h⟩
    · exact absurd h (by decide)
    · exact hp name (hx.2.2 name hname) h

end ValueLattice.Constraint
