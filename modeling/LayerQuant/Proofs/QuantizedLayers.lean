import Mathlib
import LayerQuant.Proofs.NetworkEdits
import LayerQuant.Proofs.Quantization
import LayerQuant.Proofs.QuantizerCalls
import LayerQuant.Proofs.RangeRank
import LayerQuant.Proofs.SeededRanges

/-!
# What a quantization hands out

The table, the integer parameters and the report of a quantization that succeeds speak of the same
layers in the same order, which is that of the final network (`Quantized.Aligned`). Their scales and
ranges are those that the sweep has left, and every graph input has the scale that was given for it:
see `quantized_aligned`. No pass changes the size of the table, and the order of the conversion is
that of the ids.
-/

namespace LayerQuant

/-! ## Integers within their type -/

namespace Binary

/-- An integer nearest to a number within bounds around zero is within them. -/
theorem nearestInt_bounds {f : Format} {low high : Int} (hlow : low ≤ 0) (hhigh : 0 ≤ high)
    (x : Binary f) : low ≤ x.nearestInt low high ∧ x.nearestInt low high ≤ high := by
  unfold nearestInt
  split
  · exact ⟨hlow, hhigh⟩
  · split
    · split <;> omega
    · omega

end Binary

theorem Precision.bounds (precision : Precision) :
    precision.lowest ≤ 0 ∧ 0 ≤ precision.highest := by
  cases precision <;> decide

/-- The integer parameters are those of the layer: of the same name and kind, with weights and
biases where the layer has them, as many, and each within its type. -/
structure ConvertedLayer.Converts (converted : ConvertedLayer) (precision : Precision)
    (layer : Layer) : Prop where
  name : converted.name = layer.name
  kind : converted.kind = layer.kind
  weights : Option.Rel (fun integers reals => integers.precision = precision ∧
    integers.values.length = reals.length ∧
      ∀ value ∈ integers.values, precision.lowest ≤ value ∧ value ≤ precision.highest)
    converted.weights layer.weights
  biases : Option.Rel (fun integers reals => integers.length = reals.length ∧
      ∀ value ∈ integers, -2147483648 ≤ value ∧ value ≤ 2147483647)
    converted.biases layer.biases

/-- The report of a layer shows the scales and the range of its entry. -/
structure LayerScales.Shows (shown : LayerScales) (layer : Layer) (edges : LayerEdges) : Prop where
  name : shown.name = layer.name
  kind : shown.kind = layer.kind
  inputScale : shown.inputScale = edges.input.scale
  outputScale : shown.outputScale = edges.output.scale
  weightScale : shown.weightScale? =
    if layer.kind.hasWeights then some edges.weights.scale else none
  outputRange : shown.outputRange? = edges.output.aggregated?

/-- The table, the integer parameters and the report have one item for each layer of the final
network, in the order of the layers. -/
structure Quantized.Aligned (quantized : Quantized) (precision : Precision) : Prop where
  table_size : quantized.table.size = quantized.network.size
  layers_length : quantized.layers.length = quantized.network.size
  report_length : quantized.report.layers.length = quantized.network.size
  layer : ∀ {id layer}, quantized.network.layer? id = some layer →
    ∃ converted, quantized.layers[id]? = some converted ∧ converted.id = id ∧
      converted.Converts precision layer
  report : ∀ {id layer}, quantized.network.layer? id = some layer →
    ∃ shown, quantized.report.layers[id]? = some shown ∧ shown.id = id ∧
      shown.Shows layer (quantized.table.get id)

/-- The scales and ranges of all tensors of a layer. -/
def LayerEdges.known (edges : LayerEdges) :
    List (Option Single × Option Single × Option Single) :=
  [edges.input, edges.output, edges.weights, edges.bias].map fun edge =>
    (edge.scale?, edge.range?, edge.aggregated?)

/-! ## Conversion -/

namespace Converter

variable {converter : Converter} {network : Network} {layer : Layer} {edges : LayerEdges}

/-- Conversion changes no scale and no range. -/
theorem known_convertEdges : (converter.convertEdges layer edges).known = edges.known := by
  unfold convertEdges weightEdge
  split
  · dsimp only
    split <;> rfl
  · rfl

/-- What a layer is converted to depends on its entry by two scales, which stay as they are. -/
theorem convertLayer_convertEdges (other : Layer) :
    converter.convertLayer layer (converter.convertEdges other edges) =
      converter.convertLayer layer edges := by
  unfold convertLayer Edge.scale
  simp

/-- The integer parameters of a lawful layer are those of the layer. -/
theorem converts_convertLayer (hlawful : layer.Lawful) :
    (converter.convertLayer layer edges).Converts converter.precision layer := by
  obtain ⟨hlow, hhigh⟩ := converter.precision.bounds
  refine ⟨rfl, rfl, ?_, ?_⟩
  · show Option.Rel _ ((weightsOf layer).map _) layer.weights
    have hweights : weightsOf layer = layer.weights := by
      unfold weightsOf
      cases hlayer : layer.weights with
      | none => simp
      | some weights => simp [hlawful.weighted (by simp [hlayer])]
    rw [hweights]
    cases layer.weights with
    | none => exact .none
    | some weights =>
        refine .some ⟨rfl, List.length_map _, fun value hvalue => ?_⟩
        obtain ⟨weight, _, rfl⟩ := List.mem_map.1 hvalue
        exact Binary.nearestInt_bounds hlow hhigh _
  · show Option.Rel _ (layer.biases.map _) layer.biases
    cases layer.biases with
    | none => exact .none
    | some biases =>
        refine .some ⟨List.length_map _, fun value hvalue => ?_⟩
        obtain ⟨bias, _, rfl⟩ := List.mem_map.1 hvalue
        exact Binary.nearestInt_bounds (by decide) (by decide) _

/-- Layers are converted in the order of their ids, each as its entry says in the end. -/
theorem convertIds_layers {ids : List Nat} {table result : EdgeTable}
    {layers : List ConvertedLayer}
    (h : converter.convertIds network ids table = .ok (result, layers)) :
    result.size = table.size ∧ List.Forall₂ (fun id converted => ∃ layer,
      network.layer? id = some layer ∧
        converted = converter.convertLayer layer (result.get layer.id)) ids layers := by
  induction ids generalizing table layers with
  | nil =>
      obtain ⟨rfl, rfl⟩ := by simpa [convertIds] using h
      exact ⟨rfl, .nil⟩
  | cons id rest ih =>
      obtain ⟨layer, later, hlayer, _, hlater, rfl⟩ := convertIds_cons_eq_ok h
      obtain ⟨hsize, hrest⟩ := ih hlater
      refine ⟨hsize.trans (EdgeTable.size_modify _ _ _), .cons ⟨layer, hlayer, ?_⟩ hrest⟩
      exact (convertIds_entry (converter.convertLayer layer)
        (fun other _ => convertLayer_convertEdges other) h layer.id).symm

end Converter

/-! ## Sizes -/

namespace EdgeTable

variable {table : EdgeTable} {network : Network}

/-- Inputs that are not listed keep their scales. -/
theorem seedScales_input_of_not_mem {pairs : List (Nat × Single)} {given : EdgeTable} {id : Nat}
    (hid : id ∉ pairs.map (·.1)) (h : seedScales pairs table = .ok given) :
    (given.get id).input.scale? = (table.get id).input.scale? := by
  induction pairs generalizing table with
  | nil =>
      obtain rfl := Except.ok.inj h
      rfl
  | cons pair rest ih =>
      simp only [List.map_cons, List.mem_cons, not_or] at hid
      obtain ⟨_, _, hrest⟩ := seedScales_cons_eq_ok h
      rw [ih hid.2 hrest]
      exact congrArg (·.input.scale?) (get_modify_of_ne hid.1 _)

/-- An input gets the scale that it is listed with, since no input is listed twice. -/
theorem seedScales_input {pairs : List (Nat × Single)} {given : EdgeTable}
    (hnodup : (pairs.map (·.1)).Nodup) (h : seedScales pairs table = .ok given) {id : Nat}
    {scale : Single} (hpair : (id, scale) ∈ pairs) :
    (given.get id).input.scale? = some scale := by
  induction pairs generalizing table with
  | nil => cases hpair
  | cons pair rest ih =>
      rw [List.map_cons, List.nodup_cons] at hnodup
      obtain ⟨_, hsize, hrest⟩ := seedScales_cons_eq_ok h
      rcases List.mem_cons.1 hpair with rfl | hpair
      · rw [seedScales_input_of_not_mem hnodup.1 hrest]
        exact congrArg (·.input.scale?) (get_modify_self hsize _)
      · exact ih hnodup.2 hrest hpair

theorem normalizeIds_size (maxFeature : Single) (ids : List Nat) (table : EdgeTable) :
    (normalizeIds maxFeature ids table).1.size = table.size := by
  induction ids generalizing table with
  | nil => rfl
  | cons id rest ih =>
      unfold normalizeIds
      split
      · exact (ih _).trans (size_modify _ _ _)
      · rfl

theorem propagate_size (propagator : Propagator) (network : Network) (table : EdgeTable) :
    (propagator.propagate network table).1.size = table.size :=
  Propagator.propagate_table (Φ := fun current => current.size = table.size)
    (fun _ _ _ hcurrent => size_visit.trans hcurrent) rfl

/-- A calibration keeps the size of the table. -/
theorem calibrate_size {config : Config} {records : Store} {ranged : EdgeTable} {count : Nat}
    {report : Propagation}
    (h : table.calibrate config network records = .ok (ranged, count, report)) :
    ranged.size = table.size := by
  obtain ⟨_, _, hpropagation⟩ := calibrate_eq_ok h
  have hpropagated := propagate_size config.propagator network
    ((table.seed network records).1.normalizeInputs network config.maxInputFeature).1
  rw [hpropagation] at hpropagated
  exact hpropagated.trans ((normalizeIds_size _ _ _).trans (seedLayers_size _ _ _ _))

end EdgeTable

namespace Staged

variable {config : Config} {network : Network} {scales : List Single} {store : Option Store}
  {quantized : Quantized} (staged : Staged config network scales store quantized)

include staged

/-- The sweep ends with a table of the size of the network. -/
theorem final_size (hbuilt : network.Built) : staged.final.table.size = network.size := by
  obtain ⟨hplan, hnetwork, hstart, hreaches, _⟩ := staged.reaches hbuilt
  have hranged : staged.ranged.size = staged.given.size := by
    rcases staged.ranged_cases with hsame | ⟨_, _, _, hcalibrate⟩
    · rw [hsame]
    · exact EdgeTable.calibrate_size hcalibrate
  obtain ⟨hsize, _⟩ := hreaches.beyond hplan.toOrdered hstart.toConsistent
  exact hsize.trans (hranged.trans staged.given_size)

/-- Every input goes into the sweep with the scale that was given for it. -/
theorem ranged_input {i id : Nat} (hnodup : network.inputs.Nodup)
    (hinput : network.inputs[i]? = some id) : ∃ scale, scales[i]? = some scale ∧
      (staged.ranged.get id).input.scale? = some scale := by
  obtain ⟨hlength, hseed⟩ := staged.seedScales_eq
  have hi : i < scales.length :=
    (List.getElem?_eq_some_iff.1 hinput).1.trans_le hlength
  refine ⟨scales[i], List.getElem?_eq_getElem hi, ?_⟩
  have hpair : (id, scales[i]) ∈ network.inputs.zip scales := by
    refine List.mem_of_getElem? (i := i) ?_
    rw [List.getElem?_zip_eq_some]
    exact ⟨hinput, List.getElem?_eq_getElem hi⟩
  rw [staged.ranged_input_scale?]
  refine EdgeTable.seedScales_input ?_ hseed hpair
  rwa [List.map_fst_zip hlength]

/-- The sweep leaves every input with the scale that was given for it, on both of its sides. -/
theorem final_input (hbuilt : network.Built) {i id : Nat}
    (hinput : network.inputs[i]? = some id) : ∃ scale, scales[i]? = some scale ∧
      (staged.final.table.get id).input.scale = scale ∧
      (staged.final.table.get id).output.scale = scale := by
  obtain ⟨hplan, hnetwork, hstart, hreaches, hsound⟩ := staged.reaches hbuilt
  have hlawful := hbuilt.lawful
  have hnodup : network.inputs.Nodup := by
    rw [hlawful.inputs_eq]
    exact List.nodup_range.filter _
  obtain ⟨scale, hscale, hranged⟩ := staged.ranged_input hnodup hinput
  obtain ⟨layer, hlayer, hkind⟩ : ∃ layer, network.layer? id = some layer ∧
      layer.kind = .input := by
    have hmem := List.mem_of_getElem? hinput
    rw [hlawful.inputs_eq] at hmem
    have hany := (List.mem_filter.1 hmem).2
    obtain ⟨layer, hlayer, hisInput⟩ := (Option.any_eq_true _ _).1 hany
    exact ⟨layer, hlayer, by simpa [Layer.isInput] using hisInput⟩
  rw [← hnetwork] at hlayer
  have hsettled := hsound.settled hlayer (Network.lt_size hlayer)
  have hkept := hreaches.given hplan.toOrdered hstart.toConsistent hlayer hkind
  rw [show (Sweep.start staged.plan.network staged.ranged).table = staged.ranged from rfl,
    hranged] at hkept
  obtain rfl := hplan.formed.id_eq hlayer
  have hscales : staged.plan.scalesFor layer staged.final =
      { input := scale, output := scale } := by
    unfold SweepPlan.scalesFor
    simp only [hkind, hkept, Option.getD_some]
  refine ⟨scale, hscale, ?_, ?_⟩
  · rw [hsettled.input_eq, hscales]
  · show staged.final.outputScale layer.id = scale
    rw [hsettled.output_eq, hscales]

end Staged

/-! ## The result -/

/-- The report has a row for each layer that the table has an entry for. -/
theorem Network.layerScales_getElem? {network : Network} {table : EdgeTable} {id : Nat}
    {layer : Layer} (hlayer : network.layer? id = some layer) (hsize : id < table.size) :
    (network.layerScales table)[id]? = some (.ofEdges layer (table.get id)) := by
  have hlayer' : network.layers.toList[id]? = some layer := by
    rwa [Array.getElem?_toList]
  have hentry : table.layers.toList[id]? = some (table.get id) := by
    have hid : id < table.layers.size := hsize
    simp [EdgeTable.get, Array.getD_eq_getD_getElem?, hid]
  have hpair : (network.layers.toList.zip table.layers.toList)[id]? =
      some (layer, table.get id) := List.getElem?_zip_eq_some.2 ⟨hlayer', hentry⟩
  unfold layerScales
  rw [List.getElem?_map, hpair]
  rfl

/-- The result of a quantization of a network that was built is aligned. -/
theorem aligned_of_convertIds {config : Config} {quantized : Quantized} {final : EdgeTable}
    (hlawful : quantized.network.Lawful) (hsize : final.size = quantized.network.size)
    (hconvert : config.converter.convertIds quantized.network (List.range quantized.network.size)
      final = .ok (quantized.table, quantized.layers))
    (hreport : quantized.report.layers = quantized.network.layerScales quantized.table) :
    quantized.Aligned config.weightsPrecision := by
  obtain ⟨hkept, hlayers⟩ := Converter.convertIds_layers hconvert
  have htable : quantized.table.size = quantized.network.size := hkept.trans hsize
  obtain ⟨hlength, hlayers⟩ := List.forall₂_iff_get.1 hlayers
  rw [List.length_range] at hlength
  refine ⟨htable, hlength.symm, ?_, fun {id layer} hlayer => ?_, fun {id layer} hlayer => ?_⟩
  · have hsame : quantized.network.layers.size = quantized.table.layers.size := htable.symm
    simp [hreport, Network.layerScales, ← hsame, Network.size]
  · have hid := hlength ▸ Network.lt_size hlayer
    obtain ⟨found, hfound, hconverted⟩ := hlayers id (by simpa using Network.lt_size hlayer) hid
    rw [List.get_eq_getElem, List.getElem_range, hlayer] at hfound
    obtain rfl := Option.some.inj hfound
    refine ⟨_, List.getElem?_eq_getElem hid, ?_⟩
    rw [List.get_eq_getElem] at hconverted
    rw [hconverted]
    exact ⟨hlawful.id_eq hlayer, Converter.converts_convertLayer (hlawful.layers hlayer)⟩
  · rw [hreport]
    refine ⟨_, Network.layerScales_getElem? hlayer (htable ▸ Network.lt_size hlayer), ?_⟩
    exact ⟨hlawful.id_eq hlayer, rfl, rfl, rfl, rfl, rfl, rfl⟩

/-- The callback only leaves networks that were built. -/
def Revision.KeepsBuilt {σ : Type} (revise : Revision σ) : Prop :=
  ∀ first network state changed, network.Built →
    (revise first network state).2 = .ok changed → changed.Built

theorem Revision.keepsBuilt_leave {σ : Type} : (Revision.leave : Revision σ).KeepsBuilt := by
  intro first network state changed hbuilt hchanged
  obtain rfl : network = changed := Except.ok.inj hchanged
  exact hbuilt

/-- A quantization that succeeds is one of the network that the callback has left. -/
theorem Config.quantize_eq_ok {σ : Type} {config : Config} {network : Network}
    {scales : List Single} {store : Option Store} {revise : Revision σ} {state : σ}
    {quantized : Quantized} (hbuilt : network.Built) (hrevise : revise.KeepsBuilt)
    (h : (config.quantize network scales store revise state).2 = .ok quantized) :
    config.validate = .ok () ∧ ∃ final, final.Built ∧
      config.quantizeFinal final scales store = .ok quantized := by
  unfold quantize at h
  cases hvalid : config.validate with
  | error error => simp [hvalid] at h
  | ok =>
      rcases hfirst : revise true network state with ⟨between, error | copy⟩
      · simp [hvalid, hfirst] at h
      rcases hsecond : revise false copy between with ⟨last, error | final⟩
      · simp [hvalid, hfirst, hsecond] at h
      have hcopy : copy.Built := hrevise _ _ _ _ hbuilt (congrArg Prod.snd hfirst)
      have hfinal : final.Built := hrevise _ _ _ _ hcopy (congrArg Prod.snd hsecond)
      simp only [hvalid, hfirst, hsecond] at h
      exact ⟨rfl, final, hfinal, h⟩

open Quantizer in
/-- A request that succeeds has gone through every stage with the network that the callback has
left. -/
theorem Quantizer.Request.staged {σ : Type} {quantizer : Quantizer} (request : Request σ)
    {folder : Folder} {state : σ} {quantized : Quantized} (hbuilt : request.network.Built)
    (hrevise : request.revision.KeepsBuilt)
    (h : (request.answer folder quantizer state).1 = .ok quantized) :
    quantized.network.Built ∧
    ∃ staged : Staged quantizer.config quantized.network request.scales
        (request.calibration.store folder { config := quantizer.config }) quantized,
      quantizer.config.converter.convertIds quantized.network
          (List.range quantized.network.size) staged.final.table =
        .ok (quantized.table, quantized.layers) ∧
      quantized.report.layers = quantized.network.layerScales quantized.table := by
  rw [← request.perform_attempt, request.attempt_eq, perform_run] at h
  obtain ⟨hvalid, final, hfinal, hquantized⟩ := Config.quantize_eq_ok hbuilt hrevise h
  obtain ⟨staged, rfl, hconvert, hreport⟩ := exists_staged hvalid hquantized
  have horder : staged.plan.order = List.range quantized.network.size := by
    rw [(SweepPlan.sweepPlan_eq_ok hfinal staged.plan_eq).2]
  rw [horder] at hconvert
  exact ⟨hfinal, staged, hconvert, hreport⟩

open Quantizer in
/-- A request that succeeds hands out a table, integer parameters and a report that are aligned with
the final network. The scales and ranges are those that the sweep has left, which no conversion
changes, and each declared input has the scale that was given for it on both of its sides, whatever
caps, conflicts and restarts there were. -/
theorem quantized_aligned {σ : Type} {quantizer : Quantizer} {request : Request σ}
    {folder : Folder} {state : σ} {quantized : Quantized} (hbuilt : request.network.Built)
    (hrevise : request.revision.KeepsBuilt)
    (h : (request.answer folder quantizer state).1 = .ok quantized) :
    quantized.Aligned quantizer.config.weightsPrecision ∧
    ∃ staged : Staged quantizer.config quantized.network request.scales
        (request.calibration.store folder { config := quantizer.config }) quantized,
      (∀ id, (quantized.table.get id).known = (staged.final.table.get id).known) ∧
      ∀ {i id : Nat}, quantized.network.inputs[i]? = some id → ∃ scale,
        request.scales[i]? = some scale ∧ (quantized.table.get id).input.scale = scale ∧
          (quantized.table.get id).output.scale = scale := by
  obtain ⟨hfinal, staged, hconvert, hreport⟩ := request.staged hbuilt hrevise h
  refine ⟨aligned_of_convertIds hfinal.lawful (staged.final_size hfinal) hconvert hreport, staged,
    staged.entry _ fun _ _ => Converter.known_convertEdges, fun {i id} hinput => ?_⟩
  rw [staged.input_scale, staged.output_scale]
  exact staged.final_input hfinal hinput

/-- An input and an affine layer with one weight. -/
def weighted (weight : Single) : Network where
  layers := #[{ id := 0, name := "in", kind := .input },
    { id := 1, name := "affine", kind := .affine, inputs := [0], weights := some [weight] }]
  inputs := [0]

theorem weighted_built (weight : Single) : (weighted weight).Built := by
  have hinput : Network.addInput {} "in" =
      .ok (⟨#[{ id := 0, name := "in", kind := .input }], [0]⟩, 0) := by cbv
  have haffine : Network.addLayer ⟨#[{ id := 0, name := "in", kind := .input }], [0]⟩ "affine"
      .affine [0] = .ok (⟨#[{ id := 0, name := "in", kind := .input },
        { id := 1, name := "affine", kind := .affine, inputs := [0] }], [0]⟩, 1) := by cbv
  have hweights : Network.setWeights ⟨#[{ id := 0, name := "in", kind := .input },
      { id := 1, name := "affine", kind := .affine, inputs := [0] }], [0]⟩ 1 [weight] none =
        .ok (weighted weight) := by rfl
  exact .setWeights (.addLayer (.addInput .empty hinput) haffine) hweights

/-- A request to quantize an input and an affine layer with one weight. -/
def weightedRequest : Quantizer.Request Unit :=
  .quantizeWithStats (weighted (.ofNat .single 1)) [.ofNat .single 4] none

/-- It comes to two layers, and the input has the scale that was given for it. -/
theorem weighted_aligned : ∃ quantized,
    (weightedRequest.answer {} { config := {} } ()).1 = .ok quantized ∧
      quantized.network = weightedRequest.network ∧ quantized.layers.length = 2 ∧
      (quantized.table.get 0).output.scale = .ofNat .single 4 := by
  have hbuilt : weightedRequest.network.Built := weighted_built (.ofNat .single 1)
  have hrevise : weightedRequest.revision.KeepsBuilt := Revision.keepsBuilt_leave
  have hanswer : (weightedRequest.answer {} { config := {} } ()).1.toOption.map (·.network) =
      some weightedRequest.network := by
    simp only [weightedRequest, Quantizer.Request.answer, Quantizer.quantizeWithStats,
      Config.quantize, Quantizer.noRevision, Config.quantizeFinal, Config.sweepPlan,
      (weighted_built (.ofNat .single 1)).wellFormed.topologicalOrder_eq]
    decide +kernel
  cases hresult : (weightedRequest.answer {} { config := {} } ()).1 with
  | error error => simp [hresult, Except.toOption] at hanswer
  | ok quantized =>
      have hnetwork : quantized.network = weightedRequest.network := by
        simpa [hresult, Except.toOption] using hanswer
      obtain ⟨haligned, _, _, hinputs⟩ := quantized_aligned hbuilt hrevise hresult
      have hlength := haligned.layers_length
      have hinput : quantized.network.inputs[0]? = some 0 := by
        rw [hnetwork]
        rfl
      rw [hnetwork] at hlength
      obtain ⟨scale, hscale, _, houtput⟩ := hinputs hinput
      exact ⟨quantized, rfl, hnetwork, hlength, houtput.trans (Option.some.inj hscale).symm⟩

end LayerQuant
