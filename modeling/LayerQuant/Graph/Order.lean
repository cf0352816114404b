import LayerQuant.Graph.Network

/-!
# Topological order

The order puts every layer after its forward inputs. Layers whose inputs are all placed are ready,
and the ready layer with the smallest id is placed next, so the order is unique.
-/

namespace LayerQuant

namespace Network

/-- The layers that read the given layer by a forward edge, once for each such edge. -/
def consumers (network : Network) (id : Nat) : List Nat :=
  network.layers.toList.flatMap fun layer =>
    (layer.inputs.filter (· == id)).map fun _ => layer.id

end Network

/-- A topological order under construction. -/
structure Placement where
  /-- The layers placed so far, in order. -/
  placed : List Nat := []
  /-- The layers whose inputs are all placed, by id. -/
  ready : List Nat
  /-- For every layer the number of forward edges from layers not yet placed. -/
  pending : Array Nat
deriving DecidableEq

namespace Placement

/-- Puts an id into an ascending list. -/
def insertReady (id : Nat) : List Nat → List Nat
  | [] => [id]
  | next :: rest => if id ≤ next then id :: next :: rest else next :: insertReady id rest

/-- Nothing is placed, and the layers without forward inputs are ready. -/
def start (network : Network) : Placement :=
  let pending := network.layers.map (·.inputs.length)
  { ready := (List.range network.size).filter (pending.getD · 0 == 0), pending }

/-- Counts one forward edge into `id` as served. -/
def serve (placement : Placement) (id : Nat) : Placement :=
  let left := placement.pending.getD id 0 - 1
  { placement with
    pending := placement.pending.setIfInBounds id left
    ready := if left = 0 then insertReady id placement.ready else placement.ready }

/-- Places the first ready layer. -/
def step (network : Network) (placement : Placement) : Placement :=
  match placement.ready with
  | [] => placement
  | id :: rest =>
    (network.consumers id).foldl serve
      { placement with placed := placement.placed ++ [id], ready := rest }

/-- Places up to the given number of layers. -/
def run (network : Network) : Nat → Placement → Placement
  | 0, placement => placement
  | count + 1, placement => run network count (placement.step network)

end Placement

namespace Network

/-- The topological order over forward edges. -/
def topologicalOrder (network : Network) : Except GraphError (List Nat) :=
  let order := (Placement.run network network.size (.start network)).placed
  if order.length = network.size then .ok order
  else .error (.cycle order.length network.size)

end Network

end LayerQuant
