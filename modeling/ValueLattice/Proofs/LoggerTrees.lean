import ValueLattice.Logging.Tree

/-!
# What the loggers of a tree save and print

A tree of loggers grows from its root while messages are logged. Its history says which names lead
to each logger and which calls were made, in order; the tree follows it.

* `Follows`: the loggers share the sinks and the journal of the root, and bear the names that lead
  to them; what was saved or printed are the calls of the history;
* `Follows.child`, `Follows.put`: growing a tree and logging a message preserve this, so every run
  does (`Follows.run`);
* `logging_laws`: a saving tree prints nothing and every logger of it has saved all calls; any other
  tree has printed them all, once each.
-/

namespace ValueLattice.Logging

/-! ## Histories -/

/-- What is done with a tree: a logger gets a child, or logs a message. -/
inductive Use where
  /-- A logger gets a child. -/
  | child (parent : LoggerId) (name : String)
  /-- A logger logs a message. -/
  | put (logger : LoggerId) (level : Level) (m : Message)

namespace Tree

/-- The tree after a use. -/
def use (t : Tree) : Use → Tree
  | .child parent name => (t.child parent name).2
  | .put logger level m => t.put logger level m

/-- The tree after some uses, one after the other. -/
def run (t : Tree) (uses : List Use) : Tree :=
  uses.foldl use t

end Tree

/-- A text behind the names that lead to a logger; nothing stands in front of it for no names. -/
def line (names : List String) (text : String) : String :=
  if names = [] then text else "[" ++ ":".intercalate names ++ "] " ++ text

/-- A call of a logger. -/
structure Call where
  /-- The names that lead from the root to the logger. -/
  path : List String
  /-- The level of the message. -/
  level : Level
  /-- The message. -/
  message : Message

/-- The line of a call below a root with the given label, if it has one. -/
def Call.line (label : Option String) (c : Call) : String :=
  Logging.line (label.toList ++ c.path) c.message.content

/-- The sink of a level under a mapping, unless the level is silenced. -/
def Mapping.sink? (mapping : Mapping) (level : Level) : Option String :=
  (mapping.get level).getD (Sinks.standard.get level)

/-- The loggers that were made and the calls of them, both in order. -/
structure History where
  /-- For every logger, the names that lead from the root to it. -/
  paths : List (List String) := [[]]
  /-- The calls. -/
  calls : List Call := []

namespace History

/-- The history with one more logger. -/
def grow (h : History) (path : List String) : History :=
  { h with paths := h.paths ++ [path] }

/-- The history with one more call. -/
def record (h : History) (c : Call) : History :=
  { h with calls := h.calls ++ [c] }

/-- The history after a use. A logger that was not made gets no children and logs nothing. -/
def use (h : History) : Use → History
  | .child parent name =>
    match h.paths[parent]? with
    | none => h
    | some path => h.grow (path ++ [name])
  | .put logger level m =>
    match h.paths[logger]? with
    | none => h
    | some path => h.record ⟨path, level, m⟩

/-- The history of some uses of a root. -/
def run (uses : List Use) : History :=
  uses.foldl use {}

variable (mapping : Mapping) (label : Option String)

/-- The lines of the calls on a level, in order; none if the level is silenced. -/
def saved (h : History) (level : Level) : List String :=
  (h.calls.filter fun c => c.level = level ∧ (mapping.sink? c.level).isSome).map (Call.line label)

/-- The lines of all calls with the sinks of their levels, in order, without those on silenced
levels. -/
def printed (h : History) : List (String × String) :=
  h.calls.filterMap fun c => (mapping.sink? c.level).map fun sink => (sink, c.line label)

variable {mapping label} {h : History} {c : Call}

theorem saved_record_of_none (hsink : mapping.sink? c.level = none) (level : Level) :
    (h.record c).saved mapping label level = h.saved mapping label level := by
  simp [saved, record, List.filter_append, hsink]

theorem saved_record_of_some {sink : String} (hsink : mapping.sink? c.level = some sink)
    (level : Level) : (h.record c).saved mapping label level =
      h.saved mapping label level ++ if level = c.level then [c.line label] else [] := by
  by_cases hlevel : level = c.level
  · simp [saved, record, List.filter_append, hsink, hlevel]
  · simp [saved, record, List.filter_append, hlevel, Ne.symm hlevel]

theorem printed_record_of_none (hsink : mapping.sink? c.level = none) :
    (h.record c).printed mapping label = h.printed mapping label := by
  simp [printed, record, hsink]

theorem printed_record_of_some {sink : String} (hsink : mapping.sink? c.level = some sink) :
    (h.record c).printed mapping label = h.printed mapping label ++ [(sink, c.line label)] := by
  simp [printed, record, hsink]

end History

/-! ## Labels -/

/-- The label of a logger that the names lead to. -/
def labelOf : List String → Option String
  | [] => none
  | names => some (":".intercalate names)

/-- A logger that shares the sinks and the journal of the root. -/
def Logger.ofPath (saving : Bool) (label : Option String) (path : List String) : Logger :=
  ⟨0, 0, saving, labelOf (label.toList ++ path)⟩

section

variable {saving : Bool} {label : Option String} {path : List String}

theorem labelOf_of_ne_nil {names : List String} (h : names ≠ []) :
    labelOf names = some (":".intercalate names) := by
  cases names with
  | nil => exact absurd rfl h
  | cons => rfl

theorem Logger.labelOfChild_ofPath (name : String) :
    labelOf (label.toList ++ (path ++ [name])) =
      some ((Logger.ofPath saving label path).labelOfChild name) := by
  rw [← List.append_assoc, labelOf_of_ne_nil (by simp)]
  generalize hnames : label.toList ++ path = names
  rw [labelOfChild, ofPath, hnames]
  cases names with
  | nil => exact congrArg some String.intercalate_singleton
  | cons first rest =>
    exact congrArg some (String.intercalate_append_of_ne_nil (List.cons_ne_nil _ _)
      (List.cons_ne_nil name []))

theorem Logger.format_ofPath (text : String) :
    (Logger.ofPath saving label path).format text = line (label.toList ++ path) text := by
  generalize hnames : label.toList ++ path = names
  rw [format, ofPath, hnames]
  cases names <;> rfl

end

/-! ## Sharing -/

variable {mapping : Mapping} {saving : Bool} {label : Option String} {t : Tree} {h : History}

/-- The tree is what its history makes of a root: all loggers have the sinks and the journal of the
root, and either everything was saved or everything was printed. -/
structure Follows (mapping : Mapping) (saving : Bool) (label : Option String) (t : Tree)
    (h : History) : Prop where
  /-- The first sinks are those of the root. -/
  sinks : t.sinks[0]? = some (.ofMapping mapping)
  /-- The first journal is the one of the root. -/
  journal : ∃ j, t.journals[0]? = some j ∧
    ∀ level, j.get level = if saving then h.saved mapping label level else []
  /-- All loggers refer to both. -/
  loggers : t.loggers = h.paths.map (Logger.ofPath saving label)
  /-- What was printed. -/
  printed : t.printed = if saving then [] else h.printed mapping label

theorem follows_root : Follows mapping saving label (.root mapping saving label) {} where
  sinks := rfl
  journal := ⟨.empty, rfl, fun level => by cases saving <;> exact Journal.get_empty level⟩
  loggers := by
    cases label <;> rfl
  printed := by
    cases saving <;> rfl

/-- What is appended to a list leaves its items where they are. -/
theorem getElem?_append_of_eq_some {α : Type} {xs ys : List α} {i : Nat} {x : α}
    (hx : xs[i]? = some x) : (xs ++ ys)[i]? = some x := by
  rw [List.getElem?_append_left (List.getElem?_eq_some_iff.1 hx).1, hx]

namespace Follows

theorem logger? (hf : Follows mapping saving label t h) (logger : LoggerId) :
    t.loggers[logger]? = (h.paths[logger]?).map (Logger.ofPath saving label) := by
  rw [hf.loggers, List.getElem?_map]

/-- A child gets the sinks and the journal of its parent, which are those of the root. -/
theorem child (hf : Follows mapping saving label t h) (parent : LoggerId) (name : String) :
    Follows mapping saving label (t.child parent name).2 (h.use (.child parent name)) := by
  cases hpath : h.paths[parent]? with
  | none =>
    have hparent : t.loggers[parent]? = none := by rw [hf.logger?, hpath]; rfl
    rw [Tree.child_eq_of_none hparent, History.use, hpath]
    exact hf
  | some path =>
    have hparent : t.loggers[parent]? = some (.ofPath saving label path) := by
      rw [hf.logger?, hpath]; rfl
    obtain ⟨j, hj, hsaved⟩ := hf.journal
    rw [Tree.child_eq_of_some hparent, History.use, hpath]
    -- The sinks and the journal that the child was made with lie behind those of the root.
    refine ⟨getElem?_append_of_eq_some hf.sinks, ⟨j, getElem?_append_of_eq_some hj, hsaved⟩,
      ?_, hf.printed⟩
    show t.loggers ++ [_] = (h.paths ++ [path ++ [name]]).map (Logger.ofPath saving label)
    rw [hf.loggers, List.map_append, ← Logger.labelOfChild_ofPath]
    rfl

/-- A call on a silenced level leaves no trace. -/
theorem silence {c : Call} (hf : Follows mapping saving label t h)
    (hsink : mapping.sink? c.level = none) : Follows mapping saving label t (h.record c) := by
  obtain ⟨j, hj, hsaved⟩ := hf.journal
  refine ⟨hf.sinks, ⟨j, hj, fun level => ?_⟩, hf.loggers, ?_⟩
  · rw [hsaved, History.saved_record_of_none hsink]
  · rw [hf.printed, History.printed_record_of_none hsink]

/-- A call is saved behind the earlier ones. -/
theorem save {c : Call} {sink : String} (hf : Follows mapping true label t h)
    (hsink : mapping.sink? c.level = some sink) :
    Follows mapping true label
      { t with journals := t.journals.modify 0 (·.enter c.level (c.line label)) }
      (h.record c) := by
  obtain ⟨j, hj, hsaved⟩ := hf.journal
  refine ⟨hf.sinks, ⟨j.enter c.level (c.line label), ?_, fun level => ?_⟩, hf.loggers, hf.printed⟩
  · exact (List.getElem?_modify_eq _ _ _).trans (congrArg _ hj)
  · rw [Journal.get_enter, hsaved]
    exact (History.saved_record_of_some hsink level).symm

/-- A call is printed behind the earlier ones. -/
theorem print {c : Call} {sink : String} (hf : Follows mapping false label t h)
    (hsink : mapping.sink? c.level = some sink) :
    Follows mapping false label { t with printed := t.printed ++ [(sink, c.line label)] }
      (h.record c) := by
  refine ⟨hf.sinks, hf.journal, hf.loggers, ?_⟩
  have hprinted : t.printed = h.printed mapping label := hf.printed
  exact hprinted ▸ (History.printed_record_of_some hsink).symm

/-- A logger finds the sink of the root for a level. -/
theorem sink?_eq (hf : Follows mapping saving label t h) (path : List String) (level : Level) :
    t.sink? (.ofPath saving label path) level = mapping.sink? level := by
  show (t.sinks[0]?).bind (·.get level) = mapping.sink? level
  rw [hf.sinks]
  exact Sinks.get_ofMapping mapping level

/-- A call of any logger is saved or printed, unless its level is silenced. -/
theorem put (hf : Follows mapping saving label t h) (logger : LoggerId) (level : Level)
    (m : Message) :
    Follows mapping saving label (t.put logger level m) (h.use (.put logger level m)) := by
  cases hpath : h.paths[logger]? with
  | none =>
    have hlogger : t.loggers[logger]? = none := by rw [hf.logger?, hpath]; rfl
    rw [Tree.put_eq_of_none hlogger, History.use, hpath]
    exact hf
  | some path =>
    have hlogger : t.loggers[logger]? = some (.ofPath saving label path) := by
      rw [hf.logger?, hpath]; rfl
    rw [Tree.put_eq_of_some hlogger, hf.sink?_eq, History.use, hpath, Logger.format_ofPath]
    cases hsink : mapping.sink? level with
    | none => exact hf.silence hsink
    | some sink =>
      cases saving with
      | true => exact hf.save (c := ⟨path, level, m⟩) hsink
      | false => exact hf.print (c := ⟨path, level, m⟩) hsink

theorem use (hf : Follows mapping saving label t h) (u : Use) :
    Follows mapping saving label (t.use u) (h.use u) := by
  cases u with
  | child parent name => exact hf.child parent name
  | put logger level m => exact hf.put logger level m

/-- Every run of a tree is followed by its history. -/
theorem run (hf : Follows mapping saving label t h) (uses : List Use) :
    Follows mapping saving label (t.run uses) (uses.foldl History.use h) := by
  induction uses generalizing t h with
  | nil => exact hf
  | cons u uses ih => exact ih (hf.use u)

theorem exists_logger (hf : Follows mapping saving label t h) {logger : LoggerId}
    (hlogger : logger < t.loggers.length) :
    ∃ path, t.loggers[logger]? = some (.ofPath saving label path) := by
  have hmem : t.loggers[logger] ∈ h.paths.map (Logger.ofPath saving label) :=
    hf.loggers ▸ List.getElem_mem hlogger
  obtain ⟨path, -, hpath⟩ := List.mem_map.1 hmem
  exact ⟨path, (List.getElem?_eq_getElem hlogger).trans (congrArg some hpath.symm)⟩

/-- Every logger reads back the journal of the root. -/
theorem exists_saved (hf : Follows mapping true label t h) {logger : LoggerId}
    (hlogger : logger < t.loggers.length) :
    ∃ j, t.saved logger = .ok j ∧ ∀ level, j.get level = h.saved mapping label level := by
  obtain ⟨path, hpath⟩ := hf.exists_logger hlogger
  obtain ⟨j, hj, hsaved⟩ := hf.journal
  refine ⟨j, ?_, hsaved⟩
  rw [Tree.saved, hpath]
  show Except.ok ((t.journals[0]?).getD .empty) = Except.ok j
  rw [hj, Option.getD_some]

theorem saved_eq_error (hf : Follows mapping false label t h) {logger : LoggerId}
    (hlogger : logger < t.loggers.length) : t.saved logger = .error .messagesNotSaved := by
  obtain ⟨path, hpath⟩ := hf.exists_logger hlogger
  rw [Tree.saved, hpath]
  rfl

/-- A call on a silenced level changes nothing. -/
theorem put_of_silenced (hf : Follows mapping saving label t h) {logger : LoggerId}
    (hlogger : logger < t.loggers.length) {level : Level} (hsink : mapping.sink? level = none)
    (m : Message) : t.put logger level m = t := by
  obtain ⟨path, hpath⟩ := hf.exists_logger hlogger
  rw [Tree.put_eq_of_some hpath, hf.sink?_eq, hsink]

/-- A child is the next logger. -/
theorem child_fst (hf : Follows mapping saving label t h) {parent : LoggerId}
    (hparent : parent < t.loggers.length) (name : String) :
    (t.child parent name).1 = h.paths.length := by
  obtain ⟨path, hpath⟩ := hf.exists_logger hparent
  rw [Tree.child_eq_of_some hpath, hf.loggers, List.length_map]

end Follows

/-- After any uses of a root, there is a logger for every path of the history, and a new child is the
next one. A tree that saves has printed nothing, and every logger of it has saved the lines of the
calls of all loggers, in order. Any other tree has printed these lines to the sinks of their levels,
once each and in order, and no logger of it gives messages back. Calls on silenced levels are not
among them and change nothing. -/
theorem logging_laws (mapping : Mapping) (saving : Bool) (label : Option String)
    (uses : List Use) :
    let t := (Tree.root mapping saving label).run uses
    let h := History.run uses
    (saving = true → t.printed = [] ∧ ∀ logger < t.loggers.length, ∃ j, t.saved logger = .ok j ∧
      ∀ level, j.get level = h.saved mapping label level) ∧
    (saving = false → t.printed = h.printed mapping label ∧
      ∀ logger < t.loggers.length, t.saved logger = .error .messagesNotSaved) ∧
    t.loggers.length = h.paths.length ∧ ∀ logger < t.loggers.length,
      (∀ name, (t.child logger name).1 = h.paths.length) ∧
      ∀ level m, mapping.sink? level = none → t.put logger level m = t := by
  intro t h
  have hf : Follows mapping saving label t h := follows_root.run uses
  refine ⟨?saving, ?printing, ?paths, fun logger hlogger =>
    ⟨hf.child_fst hlogger, fun level m hsink => hf.put_of_silenced hlogger hsink m⟩⟩
  case saving =>
    rintro rfl
    exact ⟨hf.printed, fun logger => hf.exists_saved⟩
  case printing =>
    rintro rfl
    exact ⟨hf.printed, fun logger => hf.saved_eq_error⟩
  case paths => rw [hf.loggers, List.length_map]

/-- A tree with a child and a grandchild, where only debug messages have a sink and are printed. -/
theorem logging_laws_nested :
    let mapping : Mapping := ⟨some (some "sink"), some none, some none, some none⟩
    let uses := [Use.child 0 "a", .put 1 .debug (.text "one"), .child 1 "b",
      .put 2 .debug (.error "two"), .put 0 .debug (.text "three"), .put 2 .warn (.text "four")]
    let t := (Tree.root mapping false none).run uses
    let s := (Tree.root mapping true none).run uses
    2 < t.loggers.length ∧ mapping.sink? .warn = none ∧
      t.printed = [("sink", "[a] one"), ("sink", "[a:b] two"), ("sink", "three")] ∧
      t.saved 2 = .error .messagesNotSaved ∧
      ∃ j, s.saved 2 = .ok j ∧ j.get .debug = ["[a] one", "[a:b] two", "three"] := by
  intro mapping uses t s
  obtain ⟨hprinted, herror⟩ := (logging_laws mapping false none uses).2.1 rfl
  obtain ⟨j, hj, hget⟩ := ((logging_laws mapping true none uses).1 rfl).2 2 (by decide)
  exact ⟨by decide, rfl, hprinted.trans (by decide), herror 2 (by decide), j, hj,
    (hget .debug).trans (by decide)⟩

end ValueLattice.Logging
