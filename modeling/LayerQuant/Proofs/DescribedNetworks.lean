import Mathlib
import LayerQuant.Graph.Description
import LayerQuant.Proofs.NetworkEdits

/-!
# The networks that descriptions stand for

`Description.network` is the network that a description stands for, written without building it, and
`Description.WellFormed` says which descriptions stand for one. `Description.Refused` names the
error of the others: it is that of the first entry that may not follow the entries before it, and
only if there is none that of the first recurrent name that no entry has. Building makes two passes.
Each of them goes from the network of one list of entries to the network of a longer one
(`foldlM_addDescribed`, `foldlM_addRecurrent`), the first without recurrent inputs. Read `Follows`,
`Fault` and `build_mirrors` first.
-/

namespace LayerQuant

namespace LayerDescription

/-- The entry may follow entries with the given names. -/
structure Follows (earlier : List String) (entry : LayerDescription) : Prop where
  known : ∀ name ∈ entry.inputs, name ∈ earlier
  fed : entry.inputs = [] → entry.kind = .input ∨ entry.kind = .memory
  fresh : entry.name ∉ earlier
  weighted : entry.weights.isSome → entry.kind.hasWeights

/-- Why the entry may not follow entries with the given names. What stands first here is tested
first, and a later test is made only where the earlier ones have been passed. -/
inductive Fault (earlier : List String) (entry : LayerDescription) : GraphError → Prop where
  | unknown {name : String} : entry.inputs.find? (· ∉ earlier) = some name →
      Fault earlier entry (.unknownLayerName name)
  | unfed : entry.inputs = [] → entry.kind ≠ .input → entry.kind ≠ .memory →
      Fault earlier entry (.missingInputs entry.name entry.kind)
  | taken : (∀ name ∈ entry.inputs, name ∈ earlier) →
      (entry.inputs = [] → entry.kind = .input ∨ entry.kind = .memory) → entry.name ∈ earlier →
      Fault earlier entry (.duplicateName entry.name)
  | unweighted : (∀ name ∈ entry.inputs, name ∈ earlier) →
      (entry.inputs = [] → entry.kind = .input ∨ entry.kind = .memory) → entry.name ∉ earlier →
      entry.weights.isSome → ¬entry.kind.hasWeights →
      Fault earlier entry (.unexpectedWeights entry.name)

/-- The layer that an entry stands for at a position of a network whose layers have the given
names. -/
def layer (names : List String) (id : Nat) (entry : LayerDescription) : Layer where
  id := id
  name := entry.name
  kind := entry.kind
  inputs := if entry.kind = .input then [] else entry.inputs.map (names.idxOf ·)
  recurrentInputs := (entry.recurrentInputs.map (names.idxOf ·)).eraseDups
  weights := entry.weights
  biases := if entry.weights.isSome then entry.biases else none

/-- The entry without its recurrent inputs. -/
def forward (entry : LayerDescription) : LayerDescription := { entry with recurrentInputs := [] }

end LayerDescription

namespace Description

/-- The names of the entries in order. -/
def names (description : Description) : List String := description.layers.map (·.name)

/-- The network that a description stands for. -/
def network (description : Description) : Network where
  layers := (description.layers.mapIdx fun id entry =>
    entry.layer description.names id).toArray
  inputs := description.layers.findIdxs (·.kind = .input)

/-- Every entry may follow the entries before it. -/
def InOrder (description : Description) : Prop :=
  ∀ before entry after, description.layers = before ++ entry :: after →
    entry.Follows (names ⟨before⟩)

/-- The description stands for a network. -/
structure WellFormed (description : Description) : Prop where
  inOrder : description.InOrder
  recurrent : ∀ entry ∈ description.layers, ∀ name ∈ entry.recurrentInputs,
    name ∈ description.names

/-- Why a description stands for no network. -/
inductive Refused (description : Description) : GraphError → Prop where
  | entry {before after : List LayerDescription} {entry : LayerDescription} {error : GraphError} :
      description.layers = before ++ entry :: after → InOrder ⟨before⟩ →
      entry.Fault (names ⟨before⟩) error → Refused description error
  | recurrent {name : String} : description.InOrder →
      (description.layers.flatMap (·.recurrentInputs)).find? (· ∉ description.names) = some name →
      Refused description (.unknownLayerName name)

end Description

namespace LayerDescription

variable {earlier : List String} {entry : LayerDescription} {error : GraphError}

/-- An entry may follow others unless something is wrong with it. -/
theorem follows_or_fault (earlier : List String) (entry : LayerDescription) :
    entry.Follows earlier ∨ ∃ error, entry.Fault earlier error := by
  cases hname : entry.inputs.find? (· ∉ earlier) with
  | some name => exact .inr ⟨_, .unknown hname⟩
  | none =>
      have hknown : ∀ name ∈ entry.inputs, name ∈ earlier := by simpa using hname
      by_cases hfed : entry.inputs = [] → entry.kind = .input ∨ entry.kind = .memory
      · by_cases hfresh : entry.name ∈ earlier
        · exact .inr ⟨_, .taken hknown hfed hfresh⟩
        · by_cases hweights : entry.weights.isSome → entry.kind.hasWeights
          · exact .inl ⟨hknown, hfed, hfresh, hweights⟩
          · obtain ⟨hweights, hkind⟩ := Classical.not_imp.1 hweights
            exact .inr ⟨_, .unweighted hknown hfed hfresh hweights hkind⟩
      · obtain ⟨hempty, hkind⟩ := Classical.not_imp.1 hfed
        obtain ⟨hinput, hmemory⟩ := not_or.1 hkind
        exact .inr ⟨_, .unfed hempty hinput hmemory⟩

/-- Later names do not change the layer of an entry whose names are all known. -/
theorem layer_append {more : List String} {id : Nat}
    (hknown : ∀ name ∈ entry.inputs, name ∈ earlier) :
    entry.forward.layer (earlier ++ more) id = entry.forward.layer earlier id := by
  have hinputs : entry.inputs.map ((earlier ++ more).idxOf ·) =
      entry.inputs.map (earlier.idxOf ·) :=
    List.map_congr_left fun name hname => List.idxOf_append_of_mem (hknown name hname)
  simp only [layer, forward, hinputs]
  rfl

end LayerDescription

namespace Network

variable {network : Network} {name : String}

/-- The names of the layers in order. -/
def names (network : Network) : List String := network.layers.toList.map (·.name)

theorem find?_eq_idxOf (h : name ∈ network.names) :
    network.find? name = some (network.names.idxOf name) := by
  obtain ⟨⟨layers⟩, inputs⟩ := network
  have hfound : ∃ layer ∈ layers, (layer.name == name) = true := by simpa [names] using h
  show layers.toArray.findIdx? _ = some ((layers.map (·.name)).idxOf name)
  rw [List.findIdx?_toArray, List.findIdx?_eq_some_of_exists hfound, List.idxOf, List.findIdx_map]
  rfl

theorem resolve_of_mem (h : name ∈ network.names) :
    network.resolve name = .ok (network.names.idxOf name) := by
  rw [resolve, find?_eq_idxOf h]

theorem resolve_of_notMem (h : name ∉ network.names) :
    network.resolve name = .error (.unknownLayerName name) := by
  rw [resolve, find?_eq_none.2 h]

/-- Names are resolved in order up to the first that no layer has. -/
theorem mapM_resolve (wanted : List String) :
    wanted.mapM network.resolve =
      match wanted.find? (· ∉ network.names) with
      | some name => .error (.unknownLayerName name)
      | none => .ok (wanted.map (network.names.idxOf ·)) := by
  induction wanted with
  | nil => rfl
  | cons name rest ih =>
      rw [List.mapM_cons]
      by_cases hname : name ∈ network.names
      · rw [resolve_of_mem hname, List.find?_cons_of_neg (by simpa using hname), ih]
        cases rest.find? (· ∉ network.names) <;> rfl
      · rw [resolve_of_notMem hname, List.find?_cons_of_pos (by simpa using hname)]
        rfl

theorem ext_layer? {other : Network} (hlayers : ∀ id, network.layer? id = other.layer? id)
    (hinputs : network.inputs = other.inputs) : network = other := by
  obtain ⟨layers, inputs⟩ := network
  obtain ⟨layers', inputs'⟩ := other
  obtain rfl : layers = layers' := Array.ext_getElem? hlayers
  obtain rfl : inputs = inputs' := hinputs
  rfl

/-- A layer that has the producers it needs stands after those of the network, unless its name is
taken. An input has no producer. -/
theorem addLayer_of_fed {kind : Kind} {inputs : List Nat} (hlt : ∀ p ∈ inputs, p < network.size)
    (hfed : inputs = [] → kind = .input ∨ kind = .memory) :
    network.addLayer name kind inputs =
      if name ∈ network.names then .error (.duplicateName name)
      else
        .ok (⟨network.layers.push
            { id := network.size, name, kind, inputs := if kind = .input then [] else inputs },
          network.inputs ++ if kind = .input then [network.size] else []⟩, network.size) := by
  have htaken : (network.find? name).isSome ↔ name ∈ network.names := by
    rw [← Option.ne_none_iff_isSome, ne_eq, find?_eq_none, not_not]
    rfl
  by_cases hinput : kind = .input
  · simp only [addLayer, hinput, addInput, append, htaken, if_true]
    split <;> rfl
  · have hfed' : ¬(inputs.isEmpty ∧ kind ≠ .memory) := by
      rintro ⟨hempty, hmemory⟩
      exact (hfed (List.isEmpty_iff.1 hempty)).elim hinput hmemory
    have hbeyond : inputs.find? (network.size ≤ ·) = none := by simpa using hlt
    simp only [addLayer, hinput, hfed', hbeyond, append, htaken, if_false, List.append_nil]

/-- The layer at the end of a network is given its weights, unless its kind takes none. -/
theorem setWeights_push {layer : Layer} {inputs : List Nat} {weights : List Single}
    {biases : Option (List Single)} :
    setWeights ⟨network.layers.push layer, inputs⟩ network.size weights biases =
      if layer.kind.hasWeights then
        .ok ⟨network.layers.push { layer with weights := some weights, biases }, inputs⟩
      else .error (.unexpectedWeights layer.name) := by
  have hlast : layer? ⟨network.layers.push layer, inputs⟩ network.size = some layer := by
    simp [layer?_push]
  have hmodify : (network.layers.push layer).modify network.size
      ({ · with weights := some weights, biases }) =
        network.layers.push { layer with weights := some weights, biases } := by
    refine Array.ext_getElem? fun i => ?_
    rw [Array.getElem?_modify, Array.getElem?_push, Array.getElem?_push]
    unfold size
    split <;> split <;> simp_all
  simp only [setWeights, hlast, hmodify]

/-- The network with the layer of an entry at its end. -/
def extend (network : Network) (entry : LayerDescription) : Network where
  layers := network.layers.push (entry.forward.layer network.names network.size)
  inputs := network.inputs ++ if entry.kind = .input then [network.size] else []

section Entry

variable {entry : LayerDescription} {error : GraphError}

/-- Once all its inputs are known, an entry is added by their positions. -/
theorem addDescribed_of_known (hknown : ∀ name ∈ entry.inputs, name ∈ network.names) :
    network.addDescribed entry =
      (network.addLayer entry.name entry.kind (entry.inputs.map (network.names.idxOf ·)) >>=
        fun added =>
          match entry.weights with
          | some weights => added.1.setWeights added.2 weights entry.biases
          | none => .ok added.1) := by
  have hnone : entry.inputs.find? (· ∉ network.names) = none := by simpa using hknown
  rw [addDescribed, mapM_resolve, hnone]
  rfl

theorem position_lt (hknown : ∀ name ∈ entry.inputs, name ∈ network.names) :
    ∀ p ∈ entry.inputs.map (network.names.idxOf ·), p < network.size := by
  intro p hp
  obtain ⟨name, hname, rfl⟩ := List.mem_map.1 hp
  simpa [names, size] using List.idxOf_lt_length_iff.2 (hknown name hname)

/-- An entry that passes the tests before the last is added at the end of the network, unless it
has weights that its kind does not take. -/
theorem addDescribed_of_fresh (hknown : ∀ name ∈ entry.inputs, name ∈ network.names)
    (hfed : entry.inputs = [] → entry.kind = .input ∨ entry.kind = .memory)
    (hfresh : entry.name ∉ network.names) :
    network.addDescribed entry =
      if entry.weights.isSome → entry.kind.hasWeights then .ok (network.extend entry)
      else .error (.unexpectedWeights entry.name) := by
  rw [addDescribed_of_known hknown,
    addLayer_of_fed (position_lt hknown) (by simpa using hfed), if_neg hfresh]
  show (match entry.weights with | some weights => _ | none => _) = _
  cases hweights : entry.weights with
  | none => simp [extend, LayerDescription.layer, LayerDescription.forward, hweights]
  | some weights =>
      show setWeights _ _ weights entry.biases = _
      rw [setWeights_push]
      simp [extend, LayerDescription.layer, LayerDescription.forward, hweights]

/-- An entry that may follow the layers of a network is added at its end. -/
theorem addDescribed_of_follows (h : entry.Follows network.names) :
    network.addDescribed entry = .ok (network.extend entry) := by
  rw [addDescribed_of_fresh h.known h.fed h.fresh, if_pos h.weighted]

/-- An entry that may not follow the layers of a network is refused for its first fault. -/
theorem addDescribed_of_fault (h : entry.Fault network.names error) :
    network.addDescribed entry = .error error := by
  cases h with
  | unknown hname =>
      rw [addDescribed, mapM_resolve, hname]
      rfl
  | unfed hempty hinput hmemory =>
      rw [addDescribed_of_known (by simp [hempty]), hempty]
      simp [addLayer, hinput, hmemory, bind, Except.bind]
  | taken hknown hfed htaken =>
      rw [addDescribed_of_known hknown,
        addLayer_of_fed (position_lt hknown) (by simpa using hfed), if_pos htaken]
      rfl
  | unweighted hknown hfed hfresh hweights hkind =>
      rw [addDescribed_of_fresh hknown hfed hfresh, if_neg fun h => hkind (h hweights)]

end Entry

end Network

/-- Only a new last item is kept. -/
theorem eraseDups_concat (items : List Nat) (item : Nat) :
    (items ++ [item]).eraseDups =
      if item ∈ items then items.eraseDups else items.eraseDups ++ [item] := by
  rw [List.eraseDups_append]
  by_cases hitem : item ∈ items
  · have hnone : [item].removeAll items = [] := by simp [List.removeAll, hitem]
    rw [hnone, if_pos hitem, List.eraseDups_nil, List.append_nil]
  · have hone : [item].removeAll items = [item] := by simp [List.removeAll, hitem]
    rw [hone, if_neg hitem]
    rfl

namespace Description

variable {description : Description} {before after : List LayerDescription}
  {entry : LayerDescription} {error : GraphError}

@[simp] theorem names_network : description.network.names = description.names := by
  refine List.ext_getElem? fun id => ?_
  simp [Network.names, network, names, LayerDescription.layer, Function.comp_def]

@[simp] theorem size_network : description.network.size = description.layers.length := by
  simp [Network.size, network]

theorem layer?_network (id : Nat) :
    description.network.layer? id =
      description.layers[id]?.map fun entry => entry.layer description.names id := by
  simp [Network.layer?, network]

/-- The description without recurrent inputs. -/
def forward (description : Description) : Description :=
  ⟨description.layers.map (·.forward)⟩

@[simp] theorem names_forward : description.forward.names = description.names := by
  simp [names, forward, LayerDescription.forward, Function.comp_def]

theorem names_append : names ⟨before ++ after⟩ = names ⟨before⟩ ++ names ⟨after⟩ := by
  simp [names]

theorem inOrder_nil : InOrder ⟨[]⟩ := by
  intro before entry after h
  simp at h

/-- A list of entries is in order if it is without its last entry and that may follow. -/
theorem inOrder_concat :
    InOrder ⟨before ++ [entry]⟩ ↔ InOrder ⟨before⟩ ∧ entry.Follows (names ⟨before⟩) := by
  constructor
  · intro h
    refine ⟨fun first middle last heq => h first middle (last ++ [entry]) ?_, h before entry [] rfl⟩
    show before ++ [entry] = _
    rw [show before = first ++ middle :: last from heq, List.append_assoc, List.cons_append]
  · rintro ⟨hbefore, hentry⟩ first middle last heq
    rcases List.eq_nil_or_concat last with rfl | ⟨init, final, rfl⟩
    · obtain ⟨rfl, hlast⟩ := List.append_inj' (show before ++ [entry] = first ++ [middle] from heq)
        rfl
      cases hlast
      exact hentry
    · have heq : before ++ [entry] = (first ++ middle :: init) ++ [final] := by simpa using heq
      exact hbefore first middle init (List.append_inj' heq rfl).1

/-- In order, every input of an entry is the name of an entry. -/
theorem InOrder.known (h : description.InOrder) (hentry : entry ∈ description.layers) :
    ∀ name ∈ entry.inputs, name ∈ description.names := by
  intro name hname
  obtain ⟨before, after, hlayers⟩ := List.append_of_mem hentry
  have hbefore := (h before entry after hlayers).known name hname
  rw [names, hlayers, List.map_append]
  exact List.mem_append_left _ hbefore

/-- The network of a list of entries in order grows at its end with the list. -/
theorem network_concat (h : InOrder ⟨before⟩) (hentry : entry.Follows (names ⟨before⟩)) :
    network (forward ⟨before ++ [entry]⟩) = (network (forward ⟨before⟩)).extend entry := by
  have hnames : names (forward ⟨before ++ [entry]⟩) = names ⟨before⟩ ++ [entry.name] := by
    rw [names_forward, names_append]
    rfl
  have hold : ∀ id, ∀ other ∈ before,
      other.forward.layer (names ⟨before⟩ ++ [entry.name]) id =
        other.forward.layer (names ⟨before⟩) id :=
    fun id other hother => LayerDescription.layer_append (h.known hother)
  have hlayers : (before.map (·.forward)).mapIdx (fun id other =>
        other.layer (names ⟨before⟩ ++ [entry.name]) id) =
      (before.map (·.forward)).mapIdx fun id other => other.layer (names ⟨before⟩) id := by
    refine List.ext_getElem? fun id => ?_
    simp only [List.getElem?_mapIdx, List.getElem?_map, Option.map_map]
    exact Option.map_congr fun other hother => hold id other (List.mem_of_getElem? hother)
  have hnew : entry.forward.layer (names ⟨before⟩ ++ [entry.name]) before.length =
      entry.forward.layer (names ⟨before⟩) before.length :=
    LayerDescription.layer_append hentry.known
  unfold Network.extend
  rw [names_network, names_forward, size_network]
  unfold network
  rw [hnames, names_forward]
  simp only [forward, List.map_append, List.map_singleton, List.mapIdx_concat, List.length_map,
    hlayers, hnew, List.findIdxs_append, List.push_toArray]
  simp [LayerDescription.forward]

/-! ## The first pass -/

/-- The first pass over entries in order makes the network that they stand for without their
recurrent inputs. -/
theorem foldlM_addDescribed (h : description.InOrder) :
    description.layers.foldlM Network.addDescribed {} = .ok description.forward.network := by
  obtain ⟨layers⟩ := description
  induction layers using List.reverseRecOn with
  | nil => rfl
  | append_singleton before entry ih =>
      obtain ⟨hbefore, hentry⟩ := inOrder_concat.1 h
      have hnames : (network (forward ⟨before⟩)).names = names ⟨before⟩ := by simp
      show List.foldlM Network.addDescribed {} (before ++ [entry]) = _
      rw [List.foldlM_append, ih hbefore, network_concat hbefore hentry]
      show List.foldlM Network.addDescribed _ [entry] = _
      rw [List.foldlM_cons, Network.addDescribed_of_follows (hnames ▸ hentry)]
      rfl

/-- The first pass ends with the fault of the first entry that may not follow those before it. -/
theorem foldlM_addDescribed_of_fault (hlayers : description.layers = before ++ entry :: after)
    (h : InOrder ⟨before⟩) (hentry : entry.Fault (names ⟨before⟩) error) :
    description.layers.foldlM Network.addDescribed {} = .error error := by
  have hnames : (network (forward ⟨before⟩)).names = names ⟨before⟩ := by simp
  have hbefore := foldlM_addDescribed h
  rw [hlayers, List.foldlM_append, hbefore]
  show List.foldlM Network.addDescribed _ (entry :: after) = _
  rw [List.foldlM_cons, Network.addDescribed_of_fault (hnames ▸ hentry)]
  rfl

/-- Entries are in order, or there is a first one that may not follow those before it. -/
theorem inOrder_or_fault (description : Description) :
    description.InOrder ∨ ∃ before entry after error,
      description.layers = before ++ entry :: after ∧ InOrder ⟨before⟩ ∧
        entry.Fault (names ⟨before⟩) error := by
  obtain ⟨layers⟩ := description
  induction layers using List.reverseRecOn with
  | nil => exact .inl inOrder_nil
  | append_singleton before entry ih =>
      rcases ih with hbefore | ⟨first, middle, last, error, heq, hfirst, hfault⟩
      · rcases entry.follows_or_fault (names ⟨before⟩) with hentry | ⟨error, hfault⟩
        · exact .inl (inOrder_concat.2 ⟨hbefore, hentry⟩)
        · exact .inr ⟨before, entry, [], error, rfl, hbefore, hfault⟩
      · refine .inr ⟨first, middle, last ++ [entry], error, ?_, hfirst, hfault⟩
        show before ++ [entry] = _
        rw [show before = first ++ middle :: last from heq, List.append_assoc, List.cons_append]

/-! ## The second pass -/

section Recurrent

variable {done todo : List String} {name : String}

/-- The description in which the entry between two lists reads the given names one step later. -/
def wired (before : List LayerDescription) (entry : LayerDescription)
    (after : List LayerDescription) (done : List String) : Description :=
  ⟨before ++ { entry with recurrentInputs := done } :: after⟩

@[simp] theorem names_wired :
    (wired before entry after done).names = names ⟨before ++ entry :: after⟩ := by
  simp [names, wired]

theorem layer?_wired (id : Nat) :
    (wired before entry after done).network.layer? id =
      if id = before.length then
        some (LayerDescription.layer (names ⟨before ++ entry :: after⟩) id
          { entry with recurrentInputs := done })
      else (network ⟨before ++ entry :: after⟩).layer? id := by
  rw [layer?_network, layer?_network, names_wired]
  split
  · rename_i hid
    simp [wired, hid]
  · rename_i hid
    have hsame : (wired before entry after done).layers[id]? = (before ++ entry :: after)[id]? := by
      rcases Nat.lt_or_gt_of_ne hid with hlt | hgt
      · simp [wired, List.getElem?_append, hlt]
      · obtain ⟨more, hmore⟩ := Nat.exists_eq_add_of_lt hgt
        simp [wired, List.getElem?_append, hmore, Nat.add_assoc]
    rw [hsame]

theorem inputs_wired :
    (wired before entry after done).network.inputs =
      (network ⟨before ++ entry :: after⟩).inputs := by
  simp [network, wired, List.findIdxs_append, List.findIdxs_cons]

/-- One more name lets the layer read one more producer, unless it reads that one already. -/
theorem addRecurrentEdge_wired (hname : name ∈ names ⟨before ++ entry :: after⟩) :
    (wired before entry after done).network.addRecurrentEdge
        ((names ⟨before ++ entry :: after⟩).idxOf name) before.length =
      .ok (wired before entry after (done ++ [name])).network := by
  have hsource : ¬(wired before entry after done).network.size ≤
      (names ⟨before ++ entry :: after⟩).idxOf name := by
    have hlt := List.idxOf_lt_length_iff.2 hname
    rw [size_network, not_le]
    simpa [names, wired] using hlt
  have hlayer : (wired before entry after done).network.layer? before.length =
      some (LayerDescription.layer (names ⟨before ++ entry :: after⟩) before.length
        { entry with recurrentInputs := done }) := by
    rw [layer?_wired, if_pos rfl]
  simp only [Network.addRecurrentEdge, hsource, hlayer, if_false]
  by_cases hdone : (names ⟨before ++ entry :: after⟩).idxOf name ∈
      (done.map ((names ⟨before ++ entry :: after⟩).idxOf ·)).eraseDups
  · rw [if_pos (by simpa [LayerDescription.layer] using hdone)]
    refine congrArg Except.ok (Network.ext_layer? (fun id => ?_) ?_)
    · rw [layer?_wired, layer?_wired]
      split
      · simp [LayerDescription.layer, eraseDups_concat, List.mem_eraseDups.1 hdone]
      · rfl
    · exact inputs_wired.trans inputs_wired.symm
  · rw [if_neg (by simpa [LayerDescription.layer] using hdone)]
    refine congrArg Except.ok (Network.ext_layer? (fun id => ?_) ?_)
    · rw [Network.layer?_modify, layer?_wired, layer?_wired]
      split
      · rename_i hid
        have hnew := mt List.mem_eraseDups.2 hdone
        simp [hid, LayerDescription.layer, eraseDups_concat, hnew]
      · rename_i hid
        simp [Ne.symm hid]
    · exact inputs_wired.trans inputs_wired.symm

/-- The recurrent names of an entry are taken in order up to the first that no entry has. -/
theorem foldlM_addRecurrentEdge (before : List LayerDescription) (entry : LayerDescription)
    (after : List LayerDescription) (done todo : List String) :
    todo.foldlM (fun network name => do
        network.addRecurrentEdge (← network.resolve name) before.length)
        (wired before entry after done).network =
      match todo.find? (· ∉ names ⟨before ++ entry :: after⟩) with
      | some name => .error (.unknownLayerName name)
      | none => .ok (wired before entry after (done ++ todo)).network := by
  induction todo generalizing done with
  | nil => simp [pure, Except.pure]
  | cons name rest ih =>
      have hnames : (wired before entry after done).network.names =
          names ⟨before ++ entry :: after⟩ := by simp
      rw [List.foldlM_cons]
      by_cases hname : name ∈ names ⟨before ++ entry :: after⟩
      · rw [List.find?_cons_of_neg (by simpa using hname),
          Network.resolve_of_mem (hnames ▸ hname), hnames]
        show (Network.addRecurrentEdge _ _ _ >>= _) = _
        rw [addRecurrentEdge_wired hname]
        show List.foldlM _ _ rest = _
        rw [ih, List.append_assoc, List.singleton_append]
      · rw [List.find?_cons_of_pos (by simpa using hname),
          Network.resolve_of_notMem (hnames ▸ hname)]
        rfl

end Recurrent

/-- The second pass adds the recurrent inputs of the entries that are left, up to the first name
that no entry has. -/
theorem foldlM_addRecurrent (before after : List LayerDescription) :
    (after.zipIdx before.length).foldlM Network.addRecurrent
        (network ⟨before ++ after.map (·.forward)⟩) =
      match (after.flatMap (·.recurrentInputs)).find? (· ∉ names ⟨before ++ after⟩) with
      | some name => .error (.unknownLayerName name)
      | none => .ok (network ⟨before ++ after⟩) := by
  induction after generalizing before with
  | nil => simp [pure, Except.pure]
  | cons entry rest ih =>
      have hnames : names ⟨before ++ entry :: rest.map (·.forward)⟩ =
          names ⟨before ++ entry :: rest⟩ := by
        simp [names, LayerDescription.forward, Function.comp_def]
      have hentry : Network.addRecurrent
          (network ⟨before ++ (entry :: rest).map (·.forward)⟩) (entry, before.length) =
            match entry.recurrentInputs.find? (· ∉ names ⟨before ++ entry :: rest⟩) with
            | some name => .error (.unknownLayerName name)
            | none => .ok (network ⟨before ++ entry :: rest.map (·.forward)⟩) := by
        rw [← hnames]
        exact foldlM_addRecurrentEdge before entry (rest.map (·.forward)) [] entry.recurrentInputs
      have hrest := ih (before ++ [entry])
      simp only [List.append_assoc, List.singleton_append, List.length_append,
        List.length_singleton] at hrest
      rw [List.zipIdx_cons, List.foldlM_cons, hentry, List.flatMap_cons, List.find?_append]
      cases entry.recurrentInputs.find? (· ∉ names ⟨before ++ entry :: rest⟩) with
      | some name => rfl
      | none => exact hrest

/-! ## Both passes -/

/-- Building entries in order is the second pass over the network without recurrent inputs. -/
theorem build_of_inOrder (h : description.InOrder) :
    description.build =
      match (description.layers.flatMap (·.recurrentInputs)).find? (· ∉ description.names) with
      | some name => .error (.unknownLayerName name)
      | none => .ok description.network := by
  rw [build, foldlM_addDescribed h]
  exact foldlM_addRecurrent [] description.layers

theorem build_of_wellFormed (h : description.WellFormed) :
    description.build = .ok description.network := by
  have hknown : (description.layers.flatMap (·.recurrentInputs)).find?
      (· ∉ description.names) = none := by
    simpa using h.recurrent
  rw [build_of_inOrder h.inOrder, hknown]

theorem build_of_refused (h : description.Refused error) : description.build = .error error := by
  cases h with
  | entry hlayers hbefore hfault =>
      rw [build, foldlM_addDescribed_of_fault hlayers hbefore hfault]
      rfl
  | recurrent hinOrder hname => rw [build_of_inOrder hinOrder, hname]

theorem wellFormed_or_refused (description : Description) :
    description.WellFormed ∨ ∃ error, description.Refused error := by
  rcases description.inOrder_or_fault with hinOrder | ⟨_, _, _, error, hlayers, hbefore, hfault⟩
  · cases hname : (description.layers.flatMap (·.recurrentInputs)).find?
        (· ∉ description.names) with
    | some name => exact .inr ⟨_, .recurrent hinOrder hname⟩
    | none => exact .inl ⟨hinOrder, by simpa using hname⟩
  · exact .inr ⟨error, .entry hlayers hbefore hfault⟩

/-- No description is refused for a position or a cycle. -/
theorem Refused.named (h : description.Refused error) :
    (∀ id, error ≠ .unknownLayer id) ∧ ∀ ordered total, error ≠ .cycle ordered total := by
  cases h with
  | entry _ _ hfault => cases hfault <;> exact ⟨nofun, nofun⟩
  | recurrent => exact ⟨nofun, nofun⟩

/-- Building succeeds on exactly the well-formed descriptions, and makes the network that they stand
for. On every other description it returns the error that the description is refused for, which
names an entry or a name, and never a position or a cycle. -/
theorem build_mirrors (description : Description) :
    (∀ network, description.build = .ok network ↔
      description.WellFormed ∧ network = description.network) ∧
      (∀ error, description.build = .error error ↔ description.Refused error) ∧
      (∀ id, description.build ≠ .error (.unknownLayer id)) ∧
      ∀ ordered total, description.build ≠ .error (.cycle ordered total) := by
  have hok : ∀ network, description.build = .ok network →
      description.WellFormed ∧ network = description.network := by
    intro network hbuild
    rcases description.wellFormed_or_refused with hformed | ⟨error, hrefused⟩
    · rw [build_of_wellFormed hformed] at hbuild
      cases hbuild
      exact ⟨hformed, rfl⟩
    · rw [build_of_refused hrefused] at hbuild
      cases hbuild
  have herror : ∀ error, description.build = .error error → description.Refused error := by
    intro error hbuild
    rcases description.wellFormed_or_refused with hformed | ⟨other, hrefused⟩
    · rw [build_of_wellFormed hformed] at hbuild
      cases hbuild
    · rw [build_of_refused hrefused] at hbuild
      cases hbuild
      exact hrefused
  refine ⟨fun network => ⟨hok network, ?_⟩, fun error => ⟨herror error, build_of_refused⟩,
    fun id hbuild => (herror _ hbuild).named.1 id rfl,
    fun ordered total hbuild => (herror _ hbuild).named.2 ordered total rfl⟩
  rintro ⟨hformed, rfl⟩
  exact build_of_wellFormed hformed

/-- Repeated inputs are kept and repeated recurrent inputs are not, which may come later. -/
example :
    build ⟨[{ name := "samples", kind := .input },
      { name := "sum", kind := .eltwise, inputs := ["samples", "samples"],
        recurrentInputs := ["last", "sum", "last"] },
      { name := "last", kind := .memory }]⟩ =
    .ok ⟨#[{ id := 0, name := "samples", kind := .input },
        { id := 1, name := "sum", kind := .eltwise, inputs := [0, 0], recurrentInputs := [2, 1] },
        { id := 2, name := "last", kind := .memory }], [0]⟩ := by
  decide +kernel

end Description

end LayerQuant
