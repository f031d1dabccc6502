import RuleMachine.Proofs.DotReader
import RuleMachine.Proofs.Snapshots

/-!
# Reading drawings

A drawing of a machine, read as a graph, has a node for each state and an edge for each rule. Nodes
are known by the texts of names, so no two names may have the same text; and as an end of an edge is
cut at a colon, there must be none in the name of a state that a rule leaves or leads to. The
identifiers in a drawing are then those of the states, if their names and the labels of rules are
texts that are quoted as they should be.

Main statement: `Config.drawing_reads`.
-/

namespace RuleMachine

-- ---------------------------------------------------------------------------
-- The graph of a machine
-- ---------------------------------------------------------------------------

/-- The identifier of the node of a state. -/
def World.nodeId (w : World) (m : MachineRef) (i : Nat) : Dot.Id :=
  .ofText (w.plain ((w.machine m).nameOf i))

/-- The node of a state. Only that of the first has a double outline. -/
def World.stateNode (w : World) (m : MachineRef) (i : Nat) : Dot.Node :=
  { name := w.nodeId m i
    attributes := if i = 0 then [(.text "peripheries", .text "2")] else [] }

/-- The edge of a rule of a state, with a label if the rule has one. -/
def World.ruleEdge (w : World) (m : MachineRef) (i : Nat) (rule : Rule) : Dot.Edge :=
  { tail := w.nodeId m i
    head := w.nodeId m rule.target.index
    attributes := (rule.label.map fun label => (Dot.Id.text "label", .ofText label)).toList }

/-- **The graph of a machine:** a node for each state and an edge for each rule, both in the order
in which they were declared. -/
def World.graph (w : World) (m : MachineRef) : Dot.Graph :=
  let places := List.range (w.machine m).states.length
  { nodes := places.map (w.stateNode m)
    edges := places.flatMap fun i => ((w.machine m).state i).rules.map (w.ruleEdge m i) }

/-- The nodes of the graph are the declared names, in their order. -/
theorem World.map_name_graph (w : World) (m : MachineRef) :
    (w.graph m).nodes.map Dot.Node.name =
      (List.range (w.machine m).states.length).map (w.nodeId m) := by
  rw [graph, List.map_map]
  rfl

theorem World.mem_edges_graph (w : World) (m : MachineRef) {edge : Dot.Edge} :
    edge ∈ (w.graph m).edges ↔ ∃ i < (w.machine m).states.length,
      ∃ rule ∈ ((w.machine m).state i).rules, w.ruleEdge m i rule = edge := by
  simp [graph]

-- ---------------------------------------------------------------------------
-- Statements of drawings
-- ---------------------------------------------------------------------------

namespace Dot.Attributes

/-- At most one attribute. -/
def single (key : String) (v : Option String) : Attributes := (v.map fun v => (key, some v)).toList

theorem written_single (key : String) (v : Option String) :
    (single key v).written = (v.map fun v => (key, v)).toList := by
  cases v <;> simp [single, written]

theorem read_single (key : String) (v : Option String) :
    (single key v).read = (v.map fun v => (Id.ofText key, Id.ofText v)).toList := by
  rw [read, written_single]
  cases v <;> rfl

/-- A single attribute is legible if its key is and its value, where it has one. -/
theorem legible_single {key : String} (hKey : Dot.legible key = true) {v : Option String}
    (h : ∀ text ∈ v, Dot.legible text = true) : (single key v).legible = true := by
  rw [Attributes.legible, written_single]
  cases v with
  | none => rfl
  | some text => simp [hKey, h text rfl]

end Dot.Attributes

section

variable (w : World) (m : MachineRef)

/-- The statements in the drawing of a machine, state by state. -/
theorem World.statements_digraph (style : Digraph.Style) :
    ((w.machine m).digraph w.refText style).statements =
      (List.range (w.machine m).states.length).map (fun i =>
        .node (w.plain ((w.machine m).nameOf i))
          (.single "peripheries" (if i = 0 then some "2" else none))) ++
      (List.range (w.machine m).states.length).flatMap fun i =>
        ((w.machine m).state i).rules.map fun rule =>
          .edge (w.plain ((w.machine m).nameOf i))
            (w.plain ((w.machine m).nameOf rule.target.index)) (.single "label" rule.label) := by
  rw [Machine.digraph, Digraph.ofTable]
  refine congrArg₂ (· ++ ·) ?nodes ?edges
  case nodes =>
    -- the first state is drawn with two lines, and the place in the table says which is first
    rw [Machine.table, List.map_map, Machine.map_states]
    refine List.ext_getElem (by simp) fun i _ _ => ?_
    simp only [List.getElem_mapIdx, List.getElem_map, List.getElem_range]
    cases i <;> rfl
  case edges =>
    rw [Machine.table, List.flatMap_map, List.flatMap_def, Machine.map_states, List.flatMap_def]
    refine congrArg List.flatten (List.map_congr_left fun i _ => ?_)
    rw [edgeStatements, List.map_map]
    refine List.map_congr_left fun rule _ => congrArg (Dot.Statement.edge _ _) ?_
    cases rule.label <;> rfl

/-- The statements in a drawing are those of the graph. -/
theorem World.items_digraph (style : Digraph.Style) :
    ((w.machine m).digraph w.refText style).statements.map Dot.Statement.item =
      (w.graph m).items := by
  have hPeripheries : (Dot.Id.ofText "peripheries", Dot.Id.ofText "2") =
      (.text "peripheries", .text "2") := by decide +kernel
  have hLabel : Dot.Id.ofText "label" = .text "label" := by decide +kernel
  -- the statements in the order of the table: first every state, then the rules state by state
  rw [statements_digraph, List.map_append, List.map_map, List.map_flatMap, Dot.Graph.items, graph,
    List.map_map, List.map_flatMap]
  refine congrArg₂ (· ++ ·) (List.map_congr_left fun i _ => ?nodes)
    (List.flatMap_congr fun i _ => ?edges)
  case nodes =>
    refine congrArg (Dot.Item.node _) (.trans (Dot.Attributes.read_single _ _) ?_)
    by_cases hFirst : i = 0 <;> simp [stateNode, hFirst, hPeripheries]
  case edges =>
    rw [List.map_map, List.map_map]
    refine List.map_congr_left fun rule _ => congrArg (Dot.Item.edge _ _) ?_
    rw [Dot.Attributes.read_single, hLabel]
    rfl

end

-- ---------------------------------------------------------------------------
-- Drawings that can be read
-- ---------------------------------------------------------------------------

/-- Whether a machine is drawn as it is: its names have different texts, which are quoted as they
should be like the labels of rules, and there is no colon in the name of a state that a rule leaves
or leads to. -/
structure World.Drawable (w : World) (m : MachineRef) : Prop where
  distinct : ∀ i < (w.machine m).states.length, ∀ j < (w.machine m).states.length,
    w.plain ((w.machine m).nameOf i) = w.plain ((w.machine m).nameOf j) → i = j
  names : ∀ i < (w.machine m).states.length,
    Dot.legible (w.plain ((w.machine m).nameOf i)) = true
  labels : ∀ i < (w.machine m).states.length, ∀ rule ∈ ((w.machine m).state i).rules,
    ∀ label ∈ rule.label, Dot.legible label = true
  ends : ∀ i < (w.machine m).states.length, ∀ rule ∈ ((w.machine m).state i).rules,
    (w.plain ((w.machine m).nameOf i)).toList.contains ':' = false ∧
      (w.plain ((w.machine m).nameOf rule.target.index)).toList.contains ':' = false

namespace World.Drawable

variable {w : World} {m : MachineRef} (h : w.Drawable m) (hTable : (w.machine m).WellFormed m)
include h

theorem nodup : ((w.graph m).nodes.map Dot.Node.name).Nodup := by
  rw [map_name_graph]
  refine List.Nodup.map_on (fun i hi j hj hSame => ?_) List.nodup_range
  exact h.distinct i (List.mem_range.mp hi) j (List.mem_range.mp hj) (Dot.Id.ofText_inj hSame)

include hTable

/-- In a drawing that can be read every end of an edge is a node. -/
theorem proper : (w.graph m).Proper where
  distinct := h.nodup
  ends := by
    intro edge hEdge
    obtain ⟨i, hi, rule, hRule, rfl⟩ := (mem_edges_graph w m).mp hEdge
    rw [map_name_graph]
    obtain ⟨-, hTarget⟩ := hTable.targets i hi rule hRule
    exact ⟨List.mem_map_of_mem (List.mem_range.mpr hi),
      List.mem_map_of_mem (List.mem_range.mpr hTarget)⟩

/-- Every statement of a drawing that can be read is legible. -/
theorem legible (style : Digraph.Style) :
    ∀ statement ∈ ((w.machine m).digraph w.refText style).statements,
      statement.legible = true := by
  have hPeripheries : Dot.legible "peripheries" = true := by decide +kernel
  have hDouble : Dot.legible "2" = true := by decide +kernel
  have hLabel : Dot.legible "label" = true := by decide +kernel
  intro statement hStatement
  rw [statements_digraph, List.mem_append] at hStatement
  -- a state has a name and a number of lines, a rule two ends and perhaps a label
  rcases hStatement with hNode | hEdge
  · obtain ⟨i, hi, rfl⟩ := List.mem_map.mp hNode
    have hName := h.names i (List.mem_range.mp hi)
    have hAttributes : (Dot.Attributes.single "peripheries"
        (if i = 0 then some "2" else none)).legible = true := by
      refine Dot.Attributes.legible_single hPeripheries fun text hText => ?_
      split at hText
      · cases hText
        exact hDouble
      · cases hText
    rw [Dot.Statement.legible, hName, hAttributes, Bool.and_self]
  · obtain ⟨i, hi, hRules⟩ := List.mem_flatMap.mp hEdge
    obtain ⟨rule, hRule, rfl⟩ := List.mem_map.mp hRules
    have hi := List.mem_range.mp hi
    obtain ⟨-, hTarget⟩ := hTable.targets i hi rule hRule
    obtain ⟨hTail, hHead⟩ := h.ends i hi rule hRule
    have hAttributes := Dot.Attributes.legible_single hLabel (h.labels i hi rule hRule)
    simp only [Dot.Statement.legible, h.names i hi, h.names _ hTarget, hAttributes, hTail, hHead,
      Bool.not_false, Bool.and_self]

end World.Drawable

-- ---------------------------------------------------------------------------
-- Together
-- ---------------------------------------------------------------------------

/-- **A drawing is read back as the graph of the machine,** at every moment at which the machine can
be drawn, by whatever package that writes what it is told to write. Different states are different
nodes. -/
theorem Config.drawing_reads {package : Dot.Package} (hFaithful : package.Faithful) {α : Type}
    (handler : Handler) (p : Program α) (n : Nat) (m : MachineRef) :
    let w := ((Config.start p).after .standard handler n).world
    w.Drawable m →
      Dot.readGraph (package.source ((w.machine m).digraph w.refText .default)) =
        some (w.graph m) ∧
      ((w.graph m).nodes.map Dot.Node.name).Nodup := by
  intro w h
  have hTable := (Config.consistent handler p n m).toWellFormed
  exact ⟨hFaithful.readGraph_source (h.legible hTable .default) (w.items_digraph m .default)
    (h.proper hTable), h.nodup⟩

namespace Config

/-- A door that is closed at half past ten, from a state that no rule leads to. -/
def door : Value :=
  .map
    [(.text "\"ajar\"", .map [(.text "rules", .list [.tuple [.text "edge",
        .map [(.text "rule", .int 1), (.text "message", .text "push it")]]])]),
      (.text "edge", .map [(.text "rules", .map [(.text "\"ajar\"", .list [.int 1])])]),
      (.text "10:30", .null)]

/-- A door whose names need quotes: a name with quotation marks in it, a keyword, and a time with a
colon. -/
def openDoor : Run (Option StateRef) := do
  let m ← Run.build door none
  Run.start m

/-- The door that stands open is drawn with three nodes and two edges. -/
theorem drawing_reads_door :
    let w := ((start (ExceptT.run openDoor)).after .standard penniless 50).world
    w.current? 0 = some { machine := 0, index := 0 } ∧
      Dot.readGraph (w.drawing .default 0) = some
        { nodes :=
            [{ name := .text "\"ajar\"", attributes := [(.text "peripheries", .text "2")] },
              { name := .text "edge", attributes := [] },
              { name := .text "10:30", attributes := [] }]
          edges :=
            [{ tail := .text "\"ajar\"", head := .text "edge"
               attributes := [(.text "label", .text "push it")] },
              { tail := .text "edge", head := .text "\"ajar\"", attributes := [] }] } := by
  intro w
  have hDrawable : w.Drawable 0 :=
    ⟨by decide +kernel, by decide +kernel, by decide +kernel, by decide +kernel⟩
  obtain ⟨hReads, -⟩ := drawing_reads Dot.graphviz_faithful penniless (ExceptT.run openDoor) 50 0
    hDrawable
  rw [Dot.graphviz_source] at hReads
  refine ⟨by decide +kernel, hReads.trans ?_⟩
  decide +kernel

/-- A world in which nothing was done but to build a machine. -/
def workshop (table : Value) : World :=
  ((start (ExceptT.run (Run.build table none))).after .standard penniless 9).world

/-- A way from a state with a colon in its name. -/
def wayFromColon : Value :=
  .map
    [(.text "a:b", .map [(.text "rules", .list [.tuple [.text "c", .int 1]])]),
      (.text "c", .null)]

/-- Not every drawing is read back as the graph of the machine. An edge that leaves a state with a
colon in its name has another node for a tail, one that stands for no state. The number one and the
text of it are the same node. -/
theorem not_every_drawing_reads :
    (Dot.readGraph ((workshop wayFromColon).drawing .default 0) = some
        { nodes :=
            [{ name := .text "a:b", attributes := [(.text "peripheries", .text "2")] },
              { name := .text "c", attributes := [] }, { name := .text "a", attributes := [] }]
          edges := [{ tail := .text "a", head := .text "c", attributes := [] }] } ∧
      ((workshop wayFromColon).graph 0).edges =
        [{ tail := .text "a:b", head := .text "c", attributes := [] }]) ∧
    let w := workshop (.map [(.int 1, .null), (.text "1", .null)])
    (w.machine 0).states.length = 2 ∧
      Dot.readGraph (w.drawing .default 0) = some
        { nodes := [{ name := .text "1", attributes := [(.text "peripheries", .text "2")] }]
          edges := [] } := by
  -- both drawings are small and closed
  decide +kernel

end Config

end RuleMachine
