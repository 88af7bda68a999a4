import Mathlib.Data.List.Nodup
import Staging.Decimal.Reader
import Staging.Partition
import Staging.Proofs.Rendered

/-!
# What a drawing says

A drawing is read back line by line (`Line.read?`): a line declares a node with its text, shape and
colour, draws an edge, or belongs to the frame. Where no label has a line end of its own, the lines
of a drawing are those it was made of (`Partition.lines_plot`), and each is read as what it was
written for (`Line.read?_nodeLine`, `Line.read?_edgeLine`).

So the nodes and edges of a drawing can be told from its text. There is one edge for each operand of
each step, and as long as no two steps write the same buffer, exactly one node for each buffer that
is written or read (`Partition.plot_declares_once`). Nothing is asked of the order of the steps: a
step may read what a later one writes, or what the other half writes.

Labels may hold quotes here, as lines are told apart by their ends. What a reader makes of a drawing
that goes by the quotes is another matter.
-/

namespace Staging

namespace Text

/-- The lines of a text. -/
def lines (s : String) : List (List Char) := s.toList.splitOn '\n'

/-- The text has no line end. -/
def OneLine (s : String) : Prop := '\n' ∉ s.toList

instance (s : String) : Decidable (OneLine s) := inferInstanceAs (Decidable (_ ∉ _))

theorem Plain.oneLine {s : String} (h : Plain s) : OneLine s := fun hmem => (h _ hmem).1 rfl

theorem OneLine.append {s t : String} (hs : OneLine s) (ht : OneLine t) : OneLine (s ++ t) := by
  intro hmem
  rw [String.toList_append] at hmem
  exact (List.mem_append.mp hmem).elim hs ht

/-- Lines that were joined are taken apart again. -/
theorem lines_intercalate {l : List String} (hl : ∀ s ∈ l, OneLine s) (hne : l ≠ []) :
    lines ("\n".intercalate l) = l.map String.toList := by
  unfold lines
  rw [String.toList_intercalate]
  refine List.splitOn_intercalate '\n' ?_ (mt List.map_eq_nil_iff.mp hne)
  rintro _ hline
  obtain ⟨s, hs, rfl⟩ := List.mem_map.mp hline
  exact hl s hs

end Text

/-! ## Reading a line -/

/-- What a line of a drawing says. -/
inductive Line where
  /-- There is a node with this text, shape and colour. -/
  | node (x : Nat) (text shape color : String)
  /-- There is an edge between two nodes. -/
  | edge (source target : Nat)
deriving DecidableEq

namespace Line

/-- The node that the line declares. -/
def declared? : Line → Option Nat
  | node x .. => some x
  | edge .. => none

/-- The shapes and colours in use: static steps are blue, dynamic ones red, leaves grey boxes. -/
def looks : List (String × String) :=
  [("oval", "lightblue"), ("oval", "lightcoral"), ("box", "grey")]

/-- What stands between the number and the text of a node. -/
def opening : List Char := ['[', 'l', 'a', 'b', 'e', 'l', '=', '"']

/-- What stands between the numbers of an edge. -/
def arrow : List Char := [' ', '-', '>', ' ']

/-- What follows the text of a node of this shape and colour. -/
def closing (look : String × String) : List Char :=
  ("\", shape=" ++ look.1 ++ ", fillcolor=\"" ++ look.2 ++ "\", style=filled]").toList

/-- Reads what follows the number of a node. The text ends where the known end of the line begins,
whatever it holds. -/
def readNode? (x : Nat) (rest : List Char) : Option Line := do
  let rest ← rest.dropPrefix? opening
  looks.findSome? fun look =>
    (rest.dropSuffix? (closing look)).map fun text => node x (String.ofList text) look.1 look.2

/-- Reads what follows the number at the start of an edge. -/
def readEdge? (x : Nat) (rest : List Char) : Option Line := do
  let digits ← rest.dropPrefix? arrow
  if digits.isEmpty || !digits.all Char.isDigit then none
  else some (edge x (Decimal.digitsValue digits))

def read? (line : List Char) : Option Line := do
  let rest ← line.dropPrefix? [' ', ' ']
  let (digits, rest) := Decimal.spanDigits rest
  if digits.isEmpty then none
  else readNode? (Decimal.digitsValue digits) rest <|> readEdge? (Decimal.digitsValue digits) rest

theorem digitsValue_toString (n : Nat) : Decimal.digitsValue (toString n).toList = n := by
  rw [Text.toList_toString]
  refine Eq.trans ?_ Nat.ofDigitChars_ten_toDigits
  simp only [Decimal.digitsValue, Nat.ofDigitChars, Nat.mul_comm]

theorem spanDigits_toString (n : Nat) {rest : List Char}
    (hrest : ∀ c ∈ rest.head?, c.isDigit = false) :
    Decimal.spanDigits ((toString n).toList ++ rest) = ((toString n).toList, rest) := by
  have hdigits : ∀ d ∈ (toString n).toList, d.isDigit = true := fun d =>
    Text.isDigit_of_mem_toString
  rw [Decimal.spanDigits, List.takeWhile_append_of_pos hdigits,
    List.dropWhile_append_of_pos hdigits]
  cases rest with
  | nil => simp
  | cons c rest => simp [hrest c rfl]

theorem toString_ne_nil (n : Nat) : (toString n).toList.isEmpty = false := by
  rw [Text.toList_toString, List.isEmpty_eq_false_iff]
  exact Nat.toDigits_ne_nil

/-- A line that starts with a number is that of a node or of an edge. -/
theorem read?_numbered (n : Nat) {rest : List Char} (hrest : ∀ c ∈ rest.head?, c.isDigit = false) :
    read? ([' ', ' '] ++ ((toString n).toList ++ rest)) =
      (readNode? n rest <|> readEdge? n rest) := by
  unfold read?
  rw [List.dropPrefix?_append_of_beq _ (beq_self_eq_true _), Option.bind_eq_bind, Option.bind_some]
  simp only [spanDigits_toString n hrest, toString_ne_nil, digitsValue_toString, Bool.false_eq_true,
    if_false]

theorem dropSuffix?_append (text ending : List Char) :
    (text ++ ending).dropSuffix? ending = some text :=
  List.dropSuffix?_eq_some_iff.mpr ⟨ending, rfl, beq_self_eq_true _⟩

theorem dropSuffix?_append_of_ne {text ending ending' : List Char} (h : ¬ ending <:+ ending')
    (h' : ¬ ending' <:+ ending) : (text ++ ending).dropSuffix? ending' = none := by
  cases hdrop : (text ++ ending).dropSuffix? ending' with
  | none => rfl
  | some front =>
    obtain ⟨back, heq, hback⟩ := List.dropSuffix?_eq_some_iff.mp hdrop
    cases eq_of_beq hback
    have hending' : ending' <:+ text ++ ending := ⟨front, heq.symm⟩
    exact ((List.suffix_or_suffix_of_suffix (List.suffix_append text ending) hending').elim h
      h').elim

/-- No end of a line can be taken for another one. -/
theorem readNode?_closing (x : Nat) {look : String × String} (hlook : look ∈ looks)
    (text : List Char) :
    readNode? x (opening ++ (text ++ closing look)) =
      some (node x (String.ofList text) look.1 look.2) := by
  have hends : ∀ a ∈ looks, ∀ b ∈ looks, a ≠ b → ¬ closing a <:+ closing b := by decide +kernel
  unfold readNode?
  rw [List.dropPrefix?_append_of_beq _ (beq_self_eq_true _), Option.bind_eq_bind, Option.bind_some]
  -- the looks that are tried before this one fail, as no closing is the end of another
  refine List.findSome?_eq_some_iff.mpr ?_
  obtain ⟨before, after, hsplit⟩ := List.append_of_mem hlook
  refine ⟨before, look, after, hsplit, by rw [dropSuffix?_append]; rfl, fun other hother => ?_⟩
  have hne : other ≠ look := by
    rintro rfl
    have hnodup : looks.Nodup := by decide
    rw [hsplit] at hnodup
    exact (List.nodup_append.mp hnodup).2.2 _ hother _ List.mem_cons_self rfl
  have hmem : other ∈ looks := hsplit ▸ List.mem_append_left _ hother
  rw [dropSuffix?_append_of_ne (hends _ hlook _ hmem hne.symm) (hends _ hmem _ hlook hne)]
  rfl

theorem read?_nodeLine (x : BufferId) (text : String) {shape color : String}
    (hlook : (shape, color) ∈ looks) :
    read? (Partition.nodeLine x text shape color).toList =
      some (node x.index text shape color) := by
  have hline : (Partition.nodeLine x text shape color).toList = [' ', ' '] ++
      ((toString x.index).toList ++ (opening ++ (text.toList ++ closing (shape, color)))) := by
    simp [Partition.nodeLine, opening, closing]
  have hread := readNode?_closing x.index hlook text.toList
  rw [String.ofList_toList] at hread
  have hrest : ∀ c ∈ (opening ++ (text.toList ++ closing (shape, color))).head?,
      c.isDigit = false := by
    rintro _ ⟨⟩
    decide
  rw [hline, read?_numbered x.index hrest, hread]
  rfl

theorem read?_edgeLine (x y : BufferId) :
    read? (Partition.edgeLine x y).toList = some (edge x.index y.index) := by
  have hline : (Partition.edgeLine x y).toList = [' ', ' '] ++
      ((toString x.index).toList ++ (arrow ++ (toString y.index).toList)) := by
    simp [Partition.edgeLine, arrow]
  have hdigits : (toString y.index).toList.all Char.isDigit = true :=
    List.all_eq_true.mpr fun c => Text.isDigit_of_mem_toString
  have hedge : readEdge? x.index (arrow ++ (toString y.index).toList) =
      some (edge x.index y.index) := by
    unfold readEdge?
    rw [List.dropPrefix?_append_of_beq _ (beq_self_eq_true _), Option.bind_eq_bind,
      Option.bind_some]
    simp only [toString_ne_nil, hdigits, digitsValue_toString, Bool.not_true, Bool.or_false,
      Bool.false_eq_true, if_false]
  have hrest : ∀ c ∈ (arrow ++ (toString y.index).toList).head?, c.isDigit = false := by
    rintro _ ⟨⟩
    decide
  have hnode : readNode? x.index (arrow ++ (toString y.index).toList) = none := rfl
  rw [hline, read?_numbered x.index hrest, hnode, hedge]
  rfl

/-- The node of a step. -/
def ofStep (label : BufferId → String) (color : String) (s : Step) : Line :=
  node s.output.index (Partition.stepText label s) "oval" color

/-- The node of a buffer that is only read. -/
def ofLeaf (label : BufferId → String) (x : BufferId) : Line := node x.index (label x) "box" "grey"

/-- The edges into a step, one for each time that an operand occurs. -/
def edgesOf (s : Step) : List Line := s.operands.map fun x => edge x.index s.output.index

/-- Lines that are read as what they were written for. -/
theorem filterMap_read? {α : Type} {write : α → String} {said : α → Line}
    (h : ∀ a, read? (write a).toList = some (said a)) (l : List α) :
    ((l.map write).map String.toList).filterMap read? = l.map said := by
  simp only [List.map_map, List.filterMap_map, Function.comp_def, h, List.filterMap_eq_map']

theorem filterMap_read?_edges (steps : Schedule) :
    ((steps.flatMap Partition.edgeLines).map String.toList).filterMap read? =
      steps.flatMap edgesOf := by
  have hedges : ∀ s, ((Partition.edgeLines s).map String.toList).filterMap read? = edgesOf s :=
    fun s => filterMap_read? (fun x => read?_edgeLine x s.output) s.operands
  simp only [List.map_flatMap, List.filterMap_flatMap, hedges]

end Line

namespace Partition

variable {p : Partition} {label : BufferId → String} {x : BufferId}

/-! ## Buffers that are only read -/

/-- A step of either half writes the buffer. -/
def Writes (p : Partition) (x : BufferId) : Prop := ∃ s ∈ p.steps, s.output = x

/-- A step of either half reads the buffer. -/
def Reads (p : Partition) (x : BufferId) : Prop := ∃ s ∈ p.steps, x ∈ s.operands

theorem mem_outputs_steps : x ∈ p.steps.outputs ↔ p.Writes x := List.mem_map

theorem mem_leaves : x ∈ p.leaves ↔ p.Reads x ∧ ¬ p.Writes x := by
  rw [leaves, IdSet.mem_ofList, List.mem_filter, List.mem_flatMap, ← mem_outputs_steps]
  simp [Reads]

theorem leaves_ascending (p : Partition) :
    p.leaves.toList.Pairwise fun x y => x.index < y.index := by
  refine (Std.ExtTreeSet.ordered_toList (t := p.leaves)).imp fun {x y} h => ?_
  exact UInt32.lt_iff_toNat_lt.mp (Std.compare_eq_lt.mp h)

/-! ## The lines of a drawing -/

theorem oneLine_nodeLine (x : BufferId) {text shape color : String} (htext : Text.OneLine text)
    (hshape : Text.OneLine shape) (hcolor : Text.OneLine color) :
    Text.OneLine (nodeLine x text shape color) := by
  have hid := (Text.plain_toString x.index).oneLine
  exact ((((((((show Text.OneLine "  " by decide).append hid).append (by decide)).append
    htext).append (by decide)).append hshape).append (by decide)).append hcolor).append (by decide)

theorem oneLine_stepLine (hlabel : ∀ x, Text.OneLine (label x)) {color : String}
    (hcolor : Text.OneLine color) (s : Step) : Text.OneLine (stepLine label color s) := by
  refine oneLine_nodeLine s.output ?_ (by decide) hcolor
  exact ((((hlabel s.output).append (by decide)).append s.op.plain_render.oneLine).append
    (by decide)).append s.shape.plain_render.oneLine

theorem oneLine_edgeLine (x y : BufferId) : Text.OneLine (edgeLine x y) :=
  (((show Text.OneLine "  " by decide).append (Text.plain_toString x.index).oneLine).append
    (by decide)).append (Text.plain_toString y.index).oneLine

theorem oneLine_of_mem_plotLines (hlabel : ∀ x, Text.OneLine (label x)) :
    ∀ line ∈ p.plotLines label, Text.OneLine line := by
  unfold plotLines
  simp only [List.forall_mem_append, List.forall_mem_map, List.forall_mem_flatMap]
  refine ⟨⟨⟨⟨⟨by decide, fun s _ => ?_⟩, fun s _ => ?_⟩, fun x _ => ?_⟩, fun s _ => ?_⟩, by decide⟩
  · exact oneLine_stepLine hlabel (by decide) s
  · exact oneLine_stepLine hlabel (by decide) s
  · exact oneLine_nodeLine x (hlabel x) (by decide) (by decide)
  · exact List.forall_mem_map.mpr fun x _ => oneLine_edgeLine x s.output

theorem lines_plot (hlabel : ∀ x, Text.OneLine (label x)) :
    Text.lines (p.plot label) = (p.plotLines label).map String.toList :=
  Text.lines_intercalate (oneLine_of_mem_plotLines hlabel) (by simp [plotLines])

/-- **What a drawing says**: the nodes of the steps, those of the leaves, and the edges. -/
theorem read_plot (hlabel : ∀ x, Text.OneLine (label x)) :
    (Text.lines (p.plot label)).filterMap Line.read? =
      p.independent.map (Line.ofStep label "lightblue") ++
        p.dynamic.map (Line.ofStep label "lightcoral") ++
        p.leaves.toList.map (Line.ofLeaf label) ++ p.steps.flatMap Line.edgesOf := by
  have hhead : (["strict digraph \x7b", "  ordering=in", "  rank=source"].map
      String.toList).filterMap Line.read? = [] := by decide +kernel
  have hfoot : (["\x7d"].map String.toList).filterMap Line.read? = [] := by decide +kernel
  have hsteps : ∀ color, ("oval", color) ∈ Line.looks → ∀ s,
      Line.read? (stepLine label color s).toList = some (Line.ofStep label color s) :=
    fun color hlook s => Line.read?_nodeLine s.output _ hlook
  have hleaves : ∀ x, Line.read? (leafLine label x).toList = some (Line.ofLeaf label x) :=
    fun x => Line.read?_nodeLine x _ (by decide)
  rw [lines_plot hlabel, plotLines]
  simp only [List.map_append, List.filterMap_append]
  rw [hhead, hfoot, Line.filterMap_read? (hsteps "lightblue" (by decide)),
    Line.filterMap_read? (hsteps "lightcoral" (by decide)), Line.filterMap_read? hleaves,
    Line.filterMap_read?_edges, List.nil_append, List.append_nil]

/-- The buffers that are declared: first those that are written, then the others. -/
theorem declared_plot (hlabel : ∀ x, Text.OneLine (label x)) :
    ((Text.lines (p.plot label)).filterMap Line.read?).filterMap Line.declared? =
      (p.steps.outputs ++ p.leaves.toList).map BufferId.index := by
  have hedges : (p.steps.flatMap Line.edgesOf).filterMap Line.declared? = [] := by
    refine List.filterMap_eq_nil_iff.mpr fun line hline => ?_
    obtain ⟨s, -, hline⟩ := List.mem_flatMap.mp hline
    obtain ⟨x, -, rfl⟩ := List.mem_map.mp hline
    rfl
  have hsteps : ∀ (color : String) (steps : Schedule),
      (steps.map (Line.ofStep label color)).filterMap Line.declared? =
        steps.outputs.map BufferId.index := by
    intro color steps
    rw [List.filterMap_map, Schedule.outputs, List.map_map, ← List.filterMap_eq_map]
    rfl
  have hleaves : (p.leaves.toList.map (Line.ofLeaf label)).filterMap Line.declared? =
      p.leaves.toList.map BufferId.index := by
    rw [List.filterMap_map, ← List.filterMap_eq_map]
    rfl
  have houtputs : p.steps.outputs = p.independent.outputs ++ p.dynamic.outputs := List.map_append
  rw [read_plot hlabel]
  simp only [List.filterMap_append, hsteps, hleaves, hedges, houtputs, List.map_append,
    List.append_nil]

theorem mem_declared_plot (hlabel : ∀ x, Text.OneLine (label x)) {n : Nat} :
    n ∈ ((Text.lines (p.plot label)).filterMap Line.read?).filterMap Line.declared? ↔
      ∃ x, x.index = n ∧ (p.Writes x ∨ p.Reads x) := by
  rw [declared_plot hlabel, List.mem_map]
  refine exists_congr fun x => ?_
  rw [List.mem_append, Std.ExtTreeSet.mem_toList, mem_outputs_steps, mem_leaves]
  tauto

/-- An edge comes from an operand of a step. -/
theorem edge_of_mem_plot (hlabel : ∀ x, Text.OneLine (label x)) {source target : Nat}
    (h : Line.edge source target ∈ (Text.lines (p.plot label)).filterMap Line.read?) :
    ∃ s ∈ p.steps, ∃ x ∈ s.operands, x.index = source ∧ s.output.index = target := by
  rw [read_plot hlabel] at h
  rcases List.mem_append.mp h with hnode | hedge
  · simp [Line.ofStep, Line.ofLeaf] at hnode
  · obtain ⟨s, hs, hline⟩ := List.mem_flatMap.mp hedge
    obtain ⟨x, hx, heq⟩ := List.mem_map.mp hline
    cases heq
    exact ⟨s, hs, x, hx, rfl, rfl⟩

theorem nodup_declared_plot (hdistinct : p.steps.outputs.Nodup)
    (hlabel : ∀ x, Text.OneLine (label x)) :
    (((Text.lines (p.plot label)).filterMap Line.read?).filterMap Line.declared?).Nodup := by
  rw [declared_plot hlabel]
  refine List.Nodup.map (fun x y h => BufferId.ext_index h) ?_
  refine List.nodup_append.mpr ⟨hdistinct, ?_, ?_⟩
  · exact (leaves_ascending p).imp fun h heq => Nat.ne_of_lt h (congrArg BufferId.index heq)
  · rintro x hx _ hleaf rfl
    exact (mem_leaves.mp (Std.ExtTreeSet.mem_toList.mp hleaf)).2 (mem_outputs_steps.mp hx)

/-- **A drawing declares every buffer once and draws every edge.** Let the steps of both halves
write different buffers, and let no label have a line end. Then the nodes and edges that the text of
a drawing tells, besides four lines around them, are these: a blue node for each independent step, a
red one for each dynamic step, a grey box for each buffer that is read and written in neither half,
in ascending order, and an edge for each time that an operand occurs in a step. No node is declared
twice, and exactly the buffers that are written or read are; so both ends of every edge are. -/
theorem plot_declares_once (hdistinct : p.steps.outputs.Nodup)
    (hlabel : ∀ x, Text.OneLine (label x)) :
    let drawn := (Text.lines (p.plot label)).filterMap Line.read?
    let declared := drawn.filterMap Line.declared?
    (∃ boxes : List BufferId, boxes.Pairwise (fun x y => x.index < y.index) ∧
      (∀ x, x ∈ boxes ↔ p.Reads x ∧ ¬ p.Writes x) ∧
      drawn = p.independent.map (Line.ofStep label "lightblue") ++
        p.dynamic.map (Line.ofStep label "lightcoral") ++ boxes.map (Line.ofLeaf label) ++
        p.steps.flatMap Line.edgesOf) ∧
    (Text.lines (p.plot label)).length = drawn.length + 4 ∧
    declared.Nodup ∧ (∀ n, n ∈ declared ↔ ∃ x, x.index = n ∧ (p.Writes x ∨ p.Reads x)) ∧
    ∀ source target, .edge source target ∈ drawn → source ∈ declared ∧ target ∈ declared := by
  intro drawn declared
  have hdrawn : drawn = _ := read_plot hlabel
  have hdeclared : ∀ n, n ∈ declared ↔ _ := fun n => mem_declared_plot hlabel
  refine ⟨⟨p.leaves.toList, leaves_ascending p, fun x => ?_, hdrawn⟩, ?_,
    nodup_declared_plot hdistinct hlabel, hdeclared, fun source target hedge => ?_⟩
  · rw [Std.ExtTreeSet.mem_toList, mem_leaves]
  · rw [hdrawn, lines_plot hlabel]
    simp only [plotLines, edgeLines, Line.edgesOf, List.length_map, List.length_append,
      List.length_flatMap, List.length_cons, List.length_nil]
    omega
  · obtain ⟨s, hs, x, hx, rfl, rfl⟩ := edge_of_mem_plot hlabel hedge
    exact ⟨(hdeclared _).mpr ⟨x, rfl, .inr ⟨s, hs, hx⟩⟩,
      (hdeclared _).mpr ⟨s.output, rfl, .inl ⟨s, hs, rfl⟩⟩⟩

/-- A step that reads what a step of the other half writes after it, an operand that occurs twice,
and a label with a quote and a backslash. -/
theorem plot_declares_once_crossing :
    let x := BufferId.ofNat
    let label := fun y : BufferId => if y = x 0 then "a\"b\\" else y.render
    let p : Partition := ⟨[⟨.unary .neg, x 2, [x 3], [2]⟩], [⟨.binary .add, x 3, [x 0, x 0], [2]⟩]⟩
    let drawn := (Text.lines (p.plot label)).filterMap Line.read?
    p.steps.outputs.Nodup ∧ (∀ y, Text.OneLine (label y)) ∧
      drawn = [.node 2 "b2\\nNeg\\n[2]" "oval" "lightblue",
        .node 3 "b3\\nAdd\\n[2]" "oval" "lightcoral", .node 0 "a\"b\\" "box" "grey",
        .edge 3 2, .edge 0 3, .edge 0 3] ∧
      (drawn.filterMap Line.declared?).Nodup ∧ 0 ∈ drawn.filterMap Line.declared? := by
  intro x label p drawn
  have hdistinct : p.steps.outputs.Nodup := by decide
  have hlabel : ∀ y, Text.OneLine (label y) := by
    intro y
    by_cases hy : y = x 0
    · rw [show label y = "a\"b\\" from if_pos hy]
      decide
    · rw [show label y = y.render from if_neg hy]
      exact (Text.Plain.append (by decide) (Text.plain_toString y.index)).oneLine
  obtain ⟨-, -, hnodup, hdeclared, -⟩ := plot_declares_once (p := p) hdistinct hlabel
  have hread : p.Reads (x 0) := ⟨_, List.mem_cons_of_mem _ List.mem_cons_self, List.mem_cons_self⟩
  exact ⟨hdistinct, hlabel, (read_plot hlabel).trans (by decide +kernel), hnodup,
    (hdeclared 0).mpr ⟨x 0, rfl, .inr hread⟩⟩

end Partition

end Staging
