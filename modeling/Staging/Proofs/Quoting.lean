import Staging.Proofs.Acceptance
import Staging.Proofs.Classification
import Staging.Proofs.Drawing

/-!
# What a reader that goes by the quotes makes of a drawing

In the DOT language a string ends at the first quote that no backslash stands before. `Dot.scan`
reads a text by this rule, as strings and characters outside of strings. What was written as a list
of such tokens is read as that list exactly when each of its strings ends where it was closed
(`Dot.scan_write_iff`): every quote in it stands after a backslash (`Dot.Escaped`), and it does not
end with a backslash itself (`Dot.Closes`).

A drawing puts names into strings as they are. So it is read as it is meant, statement by statement,
exactly when the names of its nodes are written like this (`Partition.statements_plot_iff`); the
name of a step is followed by other text, and may end with a backslash. In a model, names are any
text, and a model with a quote in a name is accepted and drawn
(`Graph.plot_unreadable_for_quoted_name`). Which models have readable drawings is told by the names
of their needed nodes (`Graph.plot_readable_iff`).

**What it does not establish.** Only quotes and backslashes are looked at. Whether the statements
between them are ones of the DOT language, and what it makes of an escape within a string, is left
open.
-/

namespace Staging

namespace Dot

/-! ## Tokens -/

/-- What a text is made of: characters outside of strings, and strings. -/
inductive Token where
  | mark (c : Char)
  | quoted (text : List Char)
deriving DecidableEq

namespace Token

def write : Token → List Char
  | mark c => [c]
  | quoted text => '"' :: (text ++ ['"'])

/-- A text outside of strings. -/
def marks (s : String) : List Token := s.toList.map mark

theorem write_marks (s : String) : (marks s).flatMap write = s.toList := by
  simp [marks, List.flatMap_map, write]

end Token

open Token

/-- Reads a text. Inside of a string, `inside` has the characters before, the last one first. -/
def scan : (inside : Option (List Char)) → List Char → Option (List Token)
  | none, [] => some []
  | some _, [] => none
  | none, c :: rest =>
    if c = '"' then scan (some []) rest else (scan none rest).map (mark c :: ·)
  | some before, c :: rest =>
    if c = '"' ∧ before.head? ≠ some '\\' then (scan none rest).map (quoted before.reverse :: ·)
    else scan (some (c :: before)) rest

/-- The statements of a text, one on each line; a line end inside of a string does not count. -/
def statements (text : String) : Option (List (List Token)) :=
  (scan none text.toList).map (List.splitOn (mark '\n'))

/-! ## Strings that end where they are closed -/

/-- Every quote stands directly after a backslash, where `previous` stands before the text. -/
def EscapedAfter : (previous : Option Char) → List Char → Prop
  | _, [] => True
  | previous, c :: rest => (c = '"' → previous = some '\\') ∧ EscapedAfter (some c) rest

instance : (previous : Option Char) → (text : List Char) → Decidable (EscapedAfter previous text)
  | _, [] => .isTrue trivial
  | _, c :: rest =>
    have := instDecidableEscapedAfter (some c) rest
    inferInstanceAs (Decidable (_ ∧ _))

/-- Every quote of the text stands directly after a backslash. -/
def Escaped (text : List Char) : Prop := EscapedAfter none text

/-- Between quotes, the text ends at the second one. -/
def Closes (text : List Char) : Prop := Escaped text ∧ text.getLast? ≠ some '\\'

instance (text : List Char) : Decidable (Escaped text) := instDecidableEscapedAfter none text

instance (text : List Char) : Decidable (Closes text) := inferInstanceAs (Decidable (_ ∧ _))

theorem escapedAfter_of_not_mem {text : List Char} (h : '"' ∉ text) (previous : Option Char) :
    EscapedAfter previous text := by
  induction text generalizing previous with
  | nil => trivial
  | cons c rest ih =>
    obtain ⟨hc, hrest⟩ := List.ne_and_not_mem_of_not_mem_cons h
    exact ⟨fun heq => absurd heq.symm hc, ih hrest _⟩

/-- A text without quotes after it does not matter. -/
theorem escapedAfter_append {s t : List Char} (ht : '"' ∉ t) (previous : Option Char) :
    EscapedAfter previous (s ++ t) ↔ EscapedAfter previous s := by
  induction s generalizing previous with
  | nil => exact iff_of_true (escapedAfter_of_not_mem ht previous) trivial
  | cons c s ih => exact and_congr_right fun _ => ih (some c)

theorem closes_of_plain {s : String} (h : Text.Plain s) : Closes s.toList := by
  refine ⟨escapedAfter_of_not_mem (fun hmem => (h _ hmem).2.1 rfl) none, fun hlast => ?_⟩
  exact (h _ (List.mem_of_getLast? hlast)).2.2 rfl

/-! ## Reading what was written -/

variable {before text rest : List Char} {ts : List Token}

/-- A string goes on over escaped quotes. -/
theorem scan_append (h : EscapedAfter before.head? text) (rest : List Char) :
    scan (some before) (text ++ rest) = scan (some (text.reverse ++ before)) rest := by
  induction text generalizing before with
  | nil => rfl
  | cons c text ih =>
    have hopen : ¬ (c = '"' ∧ before.head? ≠ some '\\') := fun ⟨hquote, hne⟩ => hne (h.1 hquote)
    have htext : EscapedAfter (c :: before).head? text := h.2
    rw [List.cons_append, scan, if_neg hopen, ih htext, List.reverse_cons, List.append_assoc,
      List.singleton_append]

/-- **Where a string ends**: at the first quote that is not escaped. -/
theorem scan_inside_eq_some :
    scan (some before) text = some ts ↔ ∃ u rest ts', text = u ++ '"' :: rest ∧
      EscapedAfter before.head? u ∧ (u.reverse ++ before).head? ≠ some '\\' ∧
      scan none rest = some ts' ∧ ts = quoted (before.reverse ++ u) :: ts' := by
  constructor
  · intro h
    induction text generalizing before with
    | nil => cases h
    | cons c text ih =>
      rw [scan] at h
      split at h
      next hclose =>
        obtain ⟨ts', hts', rfl⟩ := Option.map_eq_some_iff.mp h
        exact ⟨[], text, ts', by rw [hclose.1]; rfl, trivial, hclose.2, hts', by simp⟩
      next hopen =>
        -- `c` belongs to the string; if it is a quote, the character before it is a backslash
        obtain ⟨u, rest, ts', rfl, hu, hlast, hts', rfl⟩ := ih h
        refine ⟨c :: u, rest, ts', rfl, ⟨fun hc => ?_, hu⟩, by simpa using hlast, hts', by simp⟩
        exact Decidable.not_not.mp fun hne => hopen ⟨hc, hne⟩
  · rintro ⟨u, rest, ts', rfl, hu, hlast, hts', rfl⟩
    rw [scan_append hu, scan, if_pos ⟨rfl, hlast⟩, hts']
    simp

/-- A string is read as it was written exactly when it ends where it is closed. -/
theorem scan_quoted_iff :
    scan (some []) (text ++ '"' :: rest) = some (quoted text :: ts) ↔
      Closes text ∧ scan none rest = some ts := by
  rw [scan_inside_eq_some]
  constructor
  · rintro ⟨u, rest', ts', hsame, hu, hlast, hts', heq⟩
    -- the string that was read is the one that was written, so the same text is left after both
    cases heq
    cases List.append_cancel_left hsame
    rw [List.append_nil, List.head?_reverse] at hlast
    exact ⟨⟨hu, hlast⟩, hts'⟩
  · rintro ⟨⟨hescaped, hlast⟩, hts⟩
    rw [← List.head?_reverse, ← List.append_nil text.reverse] at hlast
    exact ⟨text, rest, ts, rfl, hescaped, hlast, hts, rfl⟩

/-- **Tokens are read as they were written** exactly when every string among them ends where it is
closed. -/
theorem scan_write_iff (hmark : mark '"' ∉ ts) :
    scan none (ts.flatMap write) = some ts ↔ ∀ text, quoted text ∈ ts → Closes text := by
  induction ts with
  | nil => exact iff_of_true rfl fun _ h => absurd h List.not_mem_nil
  | cons t ts ih =>
    obtain ⟨ht, hts⟩ := List.ne_and_not_mem_of_not_mem_cons hmark
    cases t with
    | mark c =>
      have hc : c ≠ '"' := fun heq => ht (congrArg mark heq.symm)
      have hscan : scan none ((mark c :: ts).flatMap write) =
          (scan none (ts.flatMap write)).map (mark c :: ·) := if_neg hc
      rw [hscan]
      simp [← ih hts]
    | quoted text =>
      have hscan : scan none ((quoted text :: ts).flatMap write) =
          scan (some []) (text ++ '"' :: ts.flatMap write) := by
        simp [write, scan]
      rw [hscan, scan_quoted_iff, ih hts]
      simp

/-! ## Statements on lines -/

variable {ls : List (List Token)}

theorem write_intercalate (ls : List (List Token)) :
    ([mark '\n'].intercalate ls).flatMap write = ['\n'].intercalate (ls.map (·.flatMap write)) := by
  induction ls with
  | nil => rfl
  | cons l ls ih =>
    cases ls with
    | nil => simp
    | cons l' ls =>
      rw [List.map_cons, List.map_cons, List.intercalate_cons_cons, List.intercalate_cons_cons,
        List.flatMap_append, List.flatMap_append, ih, List.map_cons]
      rfl

theorem mem_intercalate {t : Token} (ht : t ≠ mark '\n') :
    t ∈ [mark '\n'].intercalate ls ↔ ∃ l ∈ ls, t ∈ l := by
  induction ls with
  | nil => simp
  | cons l ls ih =>
    cases ls with
    | nil => simp
    | cons l' ls =>
      rw [List.intercalate_cons_cons, List.mem_append, List.mem_append, ih, List.mem_singleton]
      simp [ht]

/-- **Statements are read as they were written**, one on each line, exactly when every string in
them ends where it is closed. -/
theorem statements_write_iff {s : String}
    (hs : s.toList = ['\n'].intercalate (ls.map (·.flatMap write)))
    (hne : ls ≠ []) (hmarks : ∀ l ∈ ls, ∀ c, mark c ∈ l → Text.IsPlain c) :
    statements s = some ls ↔ ∀ l ∈ ls, ∀ text, quoted text ∈ l → Closes text := by
  have hquote : mark '"' ∉ [mark '\n'].intercalate ls := by
    intro hmem
    obtain ⟨l, hl, hmem⟩ := (mem_intercalate (by simp)).mp hmem
    exact (hmarks l hl _ hmem).2.1 rfl
  -- a line end inside of a string is no mark, so the parts are those that were joined
  have hsplit : ([mark '\n'].intercalate ls).splitOn (mark '\n') = ls :=
    List.splitOn_intercalate _ (fun l hl hmem => (hmarks l hl _ hmem).1 rfl) hne
  have hread : statements s = some ls ↔
      scan none s.toList = some ([mark '\n'].intercalate ls) := by
    unfold statements
    rw [Option.map_eq_some_iff]
    constructor
    · rintro ⟨ts, hts, rfl⟩
      rw [hts, List.intercalate_splitOn]
    · exact fun h => ⟨_, h, hsplit⟩
  rw [hread, hs, ← write_intercalate, scan_write_iff hquote]
  constructor
  · exact fun h l hl text htext => h text ((mem_intercalate (by simp)).mpr ⟨l, hl, htext⟩)
  · intro h text htext
    obtain ⟨l, hl, htext⟩ := (mem_intercalate (by simp)).mp htext
    exact h l hl text htext

end Dot

/-! ## Drawings -/

namespace Partition

open Dot Dot.Token

variable {p : Partition} {label : BufferId → String} {x : BufferId}

/-- The statement that declares a node. -/
def nodeStatement (x : BufferId) (text shape color : String) : List Token :=
  marks ("  " ++ toString x.index ++ "[label=") ++ [quoted text.toList] ++
    marks (", shape=" ++ shape ++ ", fillcolor=") ++ [quoted color.toList] ++
    marks ", style=filled]"

def stepStatement (label : BufferId → String) (color : String) (s : Step) : List Token :=
  nodeStatement s.output (stepText label s) "oval" color

def leafStatement (label : BufferId → String) (x : BufferId) : List Token :=
  nodeStatement x (label x) "box" "grey"

def edgeStatements (s : Step) : List (List Token) :=
  s.operands.map fun x =>
    marks ("  " ++ toString x.index ++ " -> " ++ toString s.output.index)

/-- The statements that a drawing is meant to have. -/
def statements (p : Partition) (label : BufferId → String) : List (List Token) :=
  [marks "strict digraph \x7b", marks "  ordering=in", marks "  rank=source"] ++
    p.independent.map (stepStatement label "lightblue") ++
    p.dynamic.map (stepStatement label "lightcoral") ++
    p.leaves.toList.map (leafStatement label) ++
    p.steps.flatMap edgeStatements ++
    [marks "\x7d"]

theorem write_nodeStatement (x : BufferId) (text shape color : String) :
    (nodeStatement x text shape color).flatMap write = (nodeLine x text shape color).toList := by
  simp [nodeStatement, nodeLine, write_marks, write]

/-- A drawing is its statements, written one on each line. -/
theorem toList_plot (p : Partition) (label : BufferId → String) :
    (p.plot label).toList = ['\n'].intercalate ((p.statements label).map (·.flatMap write)) := by
  have hstep : ∀ color s, (stepStatement label color s).flatMap write =
      (stepLine label color s).toList := fun _ _ => write_nodeStatement _ _ _ _
  have hleaf : ∀ x, (leafStatement label x).flatMap write = (leafLine label x).toList :=
    fun _ => write_nodeStatement _ _ _ _
  have hedges : ∀ s,
      (edgeStatements s).map (·.flatMap write) = (edgeLines s).map String.toList := by
    intro s
    simp only [edgeStatements, edgeLines, List.map_map, Function.comp_def, write_marks, edgeLine]
  unfold plot
  rw [String.toList_intercalate]
  refine congrArg (List.intercalate _) ?_
  simp only [plotLines, statements, List.map_append, List.map_map, List.map_flatMap, List.map_cons,
    List.map_nil, Function.comp_def, write_marks, hstep, hleaf, hedges]

theorem quoted_not_mem_marks (t : List Char) (s : String) : quoted t ∉ marks s := by
  simp [marks]

theorem isPlain_of_mem_marks {s : String} (hs : Text.Plain s) {c : Char} (h : mark c ∈ marks s) :
    Text.IsPlain c := by
  obtain ⟨d, hd, heq⟩ := List.mem_map.mp h
  cases heq
  exact hs c hd

theorem isPlain_of_mem_nodeStatement {text shape color : String} (hshape : Text.Plain shape)
    {c : Char} (h : mark c ∈ nodeStatement x text shape color) : Text.IsPlain c := by
  have hid : Text.Plain ("  " ++ toString x.index ++ "[label=") :=
    (Text.Plain.append (by decide) (Text.plain_toString _)).append (by decide)
  have hlook : Text.Plain (", shape=" ++ shape ++ ", fillcolor=") :=
    (Text.Plain.append (by decide) hshape).append (by decide)
  simp only [nodeStatement, List.mem_append, List.mem_singleton, reduceCtorEq, or_false] at h
  rcases h with (h | h) | h
  · exact isPlain_of_mem_marks hid h
  · exact isPlain_of_mem_marks hlook h
  · exact isPlain_of_mem_marks (by decide) h

/-- Outside of strings, a drawing has only plain characters within a line. -/
theorem isPlain_of_mem_statements :
    ∀ l ∈ p.statements label, ∀ c, mark c ∈ l → Text.IsPlain c := by
  have hedge : ∀ x y : BufferId,
      Text.Plain ("  " ++ toString x.index ++ " -> " ++ toString y.index) := fun x y =>
    ((Text.Plain.append (by decide) (Text.plain_toString _)).append (by decide)).append
      (Text.plain_toString _)
  have hframe : ∀ {line}, Text.Plain line → ∀ c, mark c ∈ marks line → Text.IsPlain c :=
    fun hline _ => isPlain_of_mem_marks hline
  unfold statements
  simp only [List.forall_mem_append, List.forall_mem_map, List.forall_mem_flatMap,
    List.forall_mem_cons, List.not_mem_nil, false_imp_iff, implies_true, and_true]
  refine ⟨⟨⟨⟨⟨⟨hframe (by decide), hframe (by decide), hframe (by decide)⟩, fun s _ c => ?_⟩,
    fun s _ c => ?_⟩, fun x _ c => ?_⟩, fun s _ => ?_⟩, hframe (by decide)⟩
  · exact isPlain_of_mem_nodeStatement (by decide)
  · exact isPlain_of_mem_nodeStatement (by decide)
  · exact isPlain_of_mem_nodeStatement (by decide)
  · exact List.forall_mem_map.mpr fun x _ => hframe (hedge x s.output)

/-- Of the strings of a node, only its text can be in the way. -/
theorem closes_nodeStatement_iff (x : BufferId) (text shape : String) {color : String}
    (hcolor : Text.Plain color) :
    (∀ t, quoted t ∈ nodeStatement x text shape color → Closes t) ↔ Closes text.toList := by
  simp only [nodeStatement, List.mem_append, List.mem_singleton, quoted_not_mem_marks, false_or,
    or_false, quoted.injEq]
  constructor
  · exact fun h => h _ (.inl rfl)
  · rintro h t (rfl | rfl)
    · exact h
    · exact closes_of_plain hcolor

/-- The name of a step is followed by text without quotes that does not end with a backslash. -/
theorem closes_stepText_iff (label : BufferId → String) (s : Step) :
    Closes (stepText label s).toList ↔ Escaped (label s.output).toList := by
  have hop : '"' ∉ s.op.render.toList := fun h => (Op.plain_render s.op _ h).2.1 rfl
  have hshape : '"' ∉ s.shape.render.toList := fun h => (Shape.plain_render s.shape _ h).2.1 rfl
  have htext : (stepText label s).toList = (label s.output).toList ++
      (['\\', 'n'] ++ s.op.render.toList ++ ['\\', 'n'] ++ s.shape.render.toList) := by
    simp [stepText]
  have hlast : (stepText label s).toList.getLast? ≠ some '\\' := by
    rw [htext, ← List.append_assoc, List.getLast?_append]
    cases hrender : s.shape.render.toList.getLast? with
    | none => simp [List.getLast?_append, List.getLast?_cons]
    | some c =>
      have hc := Shape.plain_render s.shape c (List.mem_of_getLast? hrender)
      exact fun heq => hc.2.2 (Option.some.inj heq)
  unfold Closes
  rw [and_iff_left hlast, htext]
  exact escapedAfter_append (by simp [hop, hshape]) none

/-- **A drawing is read as it is meant** exactly when every quote in a name stands after a backslash
and no name of a leaf ends with a backslash. -/
theorem statements_plot_iff :
    Dot.statements (p.plot label) = some (p.statements label) ↔
      (∀ s ∈ p.steps, Escaped (label s.output).toList) ∧
        ∀ x, p.Reads x → ¬ p.Writes x → Closes (label x).toList := by
  have hstep : ∀ color, Text.Plain color → ∀ s,
      (∀ t, quoted t ∈ stepStatement label color s → Closes t) ↔
        Escaped (label s.output).toList := fun _ hcolor s =>
    (closes_nodeStatement_iff _ _ _ hcolor).trans (closes_stepText_iff label s)
  have hleaf : ∀ x, (∀ t, quoted t ∈ leafStatement label x → Closes t) ↔
      Closes (label x).toList := fun x => closes_nodeStatement_iff _ _ _ (by decide)
  have hedges : ∀ s, ∀ l ∈ edgeStatements s, ∀ t, quoted t ∈ l → Closes t := fun s =>
    List.forall_mem_map.mpr fun _ _ t ht => absurd ht (quoted_not_mem_marks t _)
  rw [statements_write_iff (toList_plot p label) (by simp [statements]) isPlain_of_mem_statements]
  unfold statements steps
  simp only [List.forall_mem_append, List.forall_mem_map, List.forall_mem_flatMap,
    List.forall_mem_singleton, List.forall_mem_cons, quoted_not_mem_marks, false_imp_iff,
    implies_true, true_and, and_true, hstep "lightblue" (by decide),
    hstep "lightcoral" (by decide), hleaf, Std.ExtTreeSet.mem_toList, mem_leaves, and_imp]
  exact ⟨fun h => h.1, fun h => ⟨h, fun s _ => hedges s, fun s _ => hedges s⟩⟩

end Partition

/-! ## Models -/

namespace Graph

variable {g g' : Graph} {m : Model} {source name : String} {outputs : List BufferId}
  {mask : DebugMask} {plan : Plan} {schedule : Schedule} {x : BufferId} {s : Step}

theorem Built.extendOutput (hg : g.Built) (h : g.extendOutput name = .ok g') : g'.Built := by
  obtain ⟨x, -, hmark⟩ := bind_eq_ok.mp h
  obtain ⟨a, hrun⟩ := Action.exec_eq_ok.mp hmark
  have hcall : (g.call (.markOutput x)).2 = g' := congrArg Prod.snd hrun
  exact hcall ▸ hg.call (.markOutput x)

theorem built_of_ofModel (h : ofModel m = .ok g) : g.Built := by
  have hends : Ends (fun _ => True) Built (ofModel m) := by
    -- both folds keep the graph built; how many ids there are does not matter
    rw [ofModel_eq]
    refine Ends.bind (Ends.foldlM (I := fun _ => Built) .empty ?_) fun g hg =>
      Ends.foldlM (I := fun _ => Built) hg ?_
    · intro done item rest g _ hg
      refine ((hg.indexed.extend_ends item).weaken fun _ _ => trivial).imp ?_
      rintro g' ⟨hname, e, -, haccepts, rfl⟩
      exact hg.grow hname haccepts
    · intro done name rest g _ hg
      cases hout : g.extendOutput name with
      | error e => trivial
      | ok g' => exact hg.extendOutput hout
  rw [h] at hends
  exact hends

theorem built_of_ofJson (h : ofJson source = .ok g) : g.Built := by
  unfold ofJson at h
  split at h
  next m _ => exact built_of_ofModel h
  next => cases h

namespace Scheduled

theorem mem_halves (h : g.Scheduled outputs schedule)
    (hp : Plan.ofSchedule schedule g.roots mask = .ok plan) :
    s ∈ plan.halves.steps ↔ g.Needed outputs s.output ∧ g.step? s.output = some s := by
  obtain ⟨-, rfl⟩ := Plan.ofSchedule_eq_ok.mp hp
  exact (Schedule.split_perm _ _).mem_iff.trans h.mem_iff_step?

theorem writes_iff (h : g.Scheduled outputs schedule)
    (hp : Plan.ofSchedule schedule g.roots mask = .ok plan) :
    plan.halves.Writes x ↔ g.Needed outputs x ∧ (g.step? x).isSome := by
  constructor
  · rintro ⟨s, hs, rfl⟩
    obtain ⟨hneeded, hstep⟩ := (h.mem_halves hp).mp hs
    exact ⟨hneeded, Option.isSome_of_eq_some hstep⟩
  · rintro ⟨hneeded, hsome⟩
    obtain ⟨s, hs⟩ := Option.isSome_iff_exists.mp hsome
    obtain ⟨rfl, -⟩ := step?_eq_some.mp hs
    exact ⟨s, (h.mem_halves hp).mpr ⟨hneeded, hs⟩, rfl⟩

theorem reads_iff (h : g.Scheduled outputs schedule)
    (hp : Plan.ofSchedule schedule g.roots mask = .ok plan) :
    plan.halves.Reads x ↔ ∃ y, g.Needed outputs y ∧ x ∈ g.operands y := by
  constructor
  · rintro ⟨s, hs, hx⟩
    obtain ⟨hneeded, hstep⟩ := (h.mem_halves hp).mp hs
    exact ⟨s.output, hneeded, operands_of_step? hstep ▸ hx⟩
  · rintro ⟨y, hneeded, hx⟩
    obtain ⟨s, hs, hread⟩ := exists_step_of_mem_operands hx
    obtain ⟨rfl, -⟩ := step?_eq_some.mp hs
    exact ⟨s, (h.mem_halves hp).mpr ⟨hneeded, hs⟩, hread⟩

end Scheduled

/-- **A drawing of a model is readable** exactly when every quote in the name of a node that is
computed or read stands after a backslash, and no name of a leaf that is read ends with a backslash.
Names of models are any text, so a drawing need not be readable. -/
theorem plot_readable_iff (hg : ofJson source = .ok g) (hp : g.compile outputs mask = .ok plan) :
    Dot.statements (plan.halves.plot g.label) = some (plan.halves.statements g.label) ↔
      (∀ x, g.Needed outputs x → (g.step? x).isSome → Dot.Escaped (g.label x).toList) ∧
        ∀ x y, g.Needed outputs y → x ∈ g.operands y → g.step? x = none →
          Dot.Closes (g.label x).toList := by
  obtain ⟨schedule, h, hplan⟩ := (built_of_ofJson hg).scheduled_of_compile hp
  rw [Partition.statements_plot_iff]
  refine and_congr ⟨fun hs x hx hstep => ?_, fun hs s hmem => ?_⟩ ⟨fun hl x y hy hx hleaf => ?_,
    fun hl x hreads hfree => ?_⟩
  · obtain ⟨s, hmem, rfl⟩ := (h.writes_iff hplan).mpr ⟨hx, hstep⟩
    exact hs s hmem
  · obtain ⟨hneeded, hstep⟩ := (h.writes_iff hplan).mp ⟨s, hmem, rfl⟩
    exact hs s.output hneeded hstep
  · refine hl x ((h.reads_iff hplan).mpr ⟨y, hy, hx⟩) fun hwrites => ?_
    have hsome := ((h.writes_iff hplan).mp hwrites).2
    rw [hleaf] at hsome
    cases hsome
  · obtain ⟨y, hy, hx⟩ := (h.reads_iff hplan).mp hreads
    -- what a needed node reads is needed, so with a step of its own it would be written
    refine hl x y hy hx (Option.not_isSome_iff_eq_none.mp fun hsome => ?_)
    exact hfree ((h.writes_iff hplan).mpr ⟨.operand hy hx, hsome⟩)

/-- An escaped quote in the name of a leaf, and a backslash at the end of the name of a step. -/
theorem plot_readable_iff_with_backslashes :
    let x := BufferId.ofNat
    let source := "\x7b\"inputs\":[\x7b\"name\":\"a\\\\\\\"b\",\"shape\":[1]\x7d]," ++
      "\"nodes\":[\x7b\"name\":\"c\\\\\",\"op\":\"neg\",\"inputs\":[\"a\\\\\\\"b\"]\x7d]," ++
      "\"outputs\":[\"c\\\\\"]\x7d"
    let g := Graph.empty.after
      [.input "a\\\"b" [1], .push "c\\" (.unary .neg) [x 0], .markOutput (x 1)]
    ofJson source = .ok g ∧ ∃ plan, g.compile g.outputs {} = .ok plan ∧
      Dot.statements (plan.halves.plot g.label) = some (plan.halves.statements g.label) := by
  intro x source g
  have hg : ofJson source = .ok g := toOption_eq_some.mp (by decide +kernel)
  have hload : g.LoadFree g.outputs := loadFree_of_ids (by decide +kernel) _
  obtain ⟨plan, hp⟩ := (built_of_ofJson hg).compile_ok (by decide +kernel) hload {}
  have hneeded : ∀ y, g.Needed g.outputs y → y ∈ [x 0, x 1] :=
    fun y => Needed.mem_of_closed (by decide +kernel) (by decide +kernel)
  have hsteps : ∀ y ∈ [x 0, x 1], (g.step? y).isSome → Dot.Escaped (g.label y).toList := by
    decide +kernel
  have hleaves : ∀ z ∈ [x 0, x 1], ∀ y ∈ g.operands z, g.step? y = none →
      Dot.Closes (g.label y).toList := by decide +kernel
  refine ⟨hg, plan, hp, (plot_readable_iff hg hp).mpr ⟨fun y hy => ?_, fun y z hz hy => ?_⟩⟩
  · exact hsteps y (hneeded y hy)
  · exact hleaves z (hneeded z hz) y hy

/-- The quote in the name of a leaf ends its string too early. -/
theorem plot_unreadable_for_quoted_name :
    let x := BufferId.ofNat
    let source := "\x7b\"inputs\":[\x7b\"name\":\"a\\\"b\",\"shape\":[1]\x7d]," ++
      "\"nodes\":[\x7b\"name\":\"y\",\"op\":\"neg\",\"inputs\":[\"a\\\"b\"]\x7d]," ++
      "\"outputs\":[\"y\"]\x7d"
    let g := Graph.empty.after
      [.input "a\"b" [1], .push "y" (.unary .neg) [x 0], .markOutput (x 1)]
    ofJson source = .ok g ∧ ∃ plan, g.compile g.outputs {} = .ok plan ∧
      Dot.statements (plan.halves.plot g.label) ≠ some (plan.halves.statements g.label) := by
  intro x source g
  have hg : ofJson source = .ok g := toOption_eq_some.mp (by decide +kernel)
  have hload : g.LoadFree g.outputs := loadFree_of_ids (by decide +kernel) _
  obtain ⟨plan, hp⟩ := (built_of_ofJson hg).compile_ok (by decide +kernel) hload {}
  obtain ⟨schedule, h, hplan⟩ := (built_of_ofJson hg).scheduled_of_compile hp
  have hread : plan.halves.Reads (x 0) :=
    (h.reads_iff hplan).mpr ⟨x 1, .output (by decide +kernel), by decide +kernel⟩
  have hleaf : ¬ plan.halves.Writes (x 0) := fun hwrites =>
    absurd ((h.writes_iff hplan).mp hwrites).2 (by decide +kernel)
  refine ⟨hg, plan, hp, fun hmeant => ?_⟩
  have hcloses := (Partition.statements_plot_iff.mp hmeant).2 (x 0) hread hleaf
  exact absurd hcloses (by decide +kernel)

end Graph

end Staging
