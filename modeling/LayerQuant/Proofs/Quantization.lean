import Mathlib
import LayerQuant.Pipeline.Quantizer
import LayerQuant.Proofs.LeastClosed
import LayerQuant.Proofs.SoundSweep

/-!
# The stages of a quantization

A quantization that succeeds has gone through every stage, each with a table of its own (`Staged`).
What a stage does not touch is as before: seeding and propagation leave scales alone, and the
conversion leaves scales and ranges alone.
-/

namespace LayerQuant

/-- The tables and the sweep of a quantization that succeeds. -/
structure Staged (config : Config) (network : Network) (scales : List Single)
    (store : Option Store) (quantized : Quantized) where
  given : EdgeTable
  ranged : EdgeTable
  plan : SweepPlan
  final : Sweep
  valid : config.validate = .ok ()
  seedInputs_eq : (EdgeTable.empty network.size).seedInputs network scales = .ok given
  ranged_eq : store = none → ranged = given
  calibrate_eq : ∀ {records}, store = some records → ∃ seeded report,
    given.calibrate config network records = .ok (ranged, seeded, report)
  plan_eq : config.sweepPlan network = .ok plan
  run_eq : plan.run (.start network ranged) = (final, .ok ())
  convert_eq : ∃ layers, config.converter.convertIds network plan.order final.table =
    .ok (quantized.table, layers)
  restarts_eq : quantized.report.restarts = final.restarts

/-- The table that the sweep of a quantization starts from: the graph inputs have their scales, and
with statistics the ranges are seeded, normalized and propagated. -/
def Config.rangedTable (config : Config) (network : Network) (scales : List Single)
    (store : Option Store) : Except Error EdgeTable := do
  let table ← (EdgeTable.empty network.size).seedInputs network scales
  match store with
  | some records => (table.calibrate config network records).map Prod.fst
  | none => pure table

variable {config : Config} {network : Network} {scales : List Single} {store : Option Store}
  {quantized : Quantized} {quantizer : Quantizer} {table : EdgeTable} {id : Nat}

/-- The stages of a quantization of a final network, and what of its result comes from the last
one. -/
theorem exists_staged (hvalid : config.validate = .ok ())
    (h : config.quantizeFinal network scales store = .ok quantized) :
    ∃ staged : Staged config network scales store quantized, quantized.network = network ∧
      config.converter.convertIds network staged.plan.order staged.final.table =
        .ok (quantized.table, quantized.layers) ∧
      quantized.report.layers = network.layerScales quantized.table := by
  unfold Config.quantizeFinal at h
  obtain ⟨given, hgiven, h⟩ := bind_eq_ok.1 h
  extract_lets finish at h
  -- Both ways to the ranges go on in the same way.
  have hfinish : ∀ ranged seeded report, (store = none → ranged = given) →
      (∀ {records}, store = some records → ∃ seeded report,
        given.calibrate config network records = .ok (ranged, seeded, report)) →
      finish (ranged, seeded, report) = .ok quantized →
      ∃ staged : Staged config network scales store quantized, quantized.network = network ∧
        config.converter.convertIds network staged.plan.order staged.final.table =
          .ok (quantized.table, quantized.layers) ∧
        quantized.report.layers = network.layerScales quantized.table := by
    intro ranged seeded report hnone hsome hok
    obtain ⟨plan, hplan, hok⟩ := bind_eq_ok.1 hok
    obtain ⟨_, hfinished, hok⟩ := bind_eq_ok.1 hok
    obtain ⟨⟨table, layers⟩, hconvert, hok⟩ := bind_eq_ok.1 hok
    obtain rfl := Except.ok.inj hok
    have hplan' : config.sweepPlan network = .ok plan := by
      cases hsweep : config.sweepPlan network with
      | error error => simp [hsweep, Except.mapError] at hplan
      | ok plan' => simpa [hsweep, Except.mapError] using hplan
    exact ⟨⟨given, ranged, plan, _, hvalid, hgiven, hnone, hsome, hplan',
      Prod.ext rfl hfinished, ⟨layers, hconvert⟩, rfl⟩, rfl, hconvert, rfl⟩
  split at h
  · rename_i records
    obtain ⟨⟨ranged, seeded, report⟩, hcalibrate, h⟩ := bind_eq_ok.1 h
    refine hfinish ranged seeded report (fun hnone => by cases hnone) (fun hsome => ?_) h
    obtain rfl := Option.some.inj hsome
    exact ⟨seeded, report, hcalibrate⟩
  · exact hfinish given 0 {} (fun _ => rfl) (fun hsome => by cases hsome) h

/-- The stages of a quantization with given statistics. -/
theorem staged_of_quantizeWithStats
    (h : (quantizer.quantizeWithStats network scales store).2 = .ok quantized) :
    Nonempty (Staged quantizer.config network scales store quantized) := by
  unfold Quantizer.quantizeWithStats Config.quantize at h
  cases hvalid : quantizer.config.validate with
  | error error => simp [hvalid] at h
  | ok =>
      simp only [hvalid, Quantizer.noRevision] at h
      obtain ⟨staged, _⟩ := exists_staged hvalid h
      exact ⟨staged⟩

/-! ## What the stages leave alone -/

namespace EdgeTable

/-- Giving a first input its scale succeeds if the scale is positive and finite and the input has an
entry. -/
theorem seedScales_cons_eq_ok {first : Nat} {value : Single} {rest : List (Nat × Single)}
    {given : EdgeTable} (h : seedScales ((first, value) :: rest) table = .ok given) :
    (.zero < value ∧ value.isFinite = true) ∧ first < table.size ∧
      seedScales rest (table.modifyInput first (·.setScale value)) = .ok given := by
  unfold seedScales at h
  split at h
  · cases h
  · rename_i hvalid
    simp only [Bool.or_eq_true, Bool.not_eq_true', decide_eq_true_eq, not_or,
      Bool.not_eq_false] at hvalid
    have hnumber := Binary.number_of_isFinite hvalid.1
    split at h
    · rename_i hsize
      exact ⟨⟨Binary.lt_of_not_le' hnumber rfl hvalid.2, hvalid.1⟩, hsize, h⟩
    · cases h

theorem seedScales_size {pairs : List (Nat × Single)} {given : EdgeTable}
    (h : seedScales pairs table = .ok given) : given.size = table.size := by
  induction pairs generalizing table with
  | nil =>
      obtain rfl := Except.ok.inj h
      rfl
  | cons pair rest ih =>
      obtain ⟨_, _, hrest⟩ := seedScales_cons_eq_ok h
      exact (ih hrest).trans (size_modify _ _ _)

/-- Only positive finite scales are given to inputs. -/
theorem seedScales_given {pairs : List (Nat × Single)} {given : EdgeTable}
    (htable : ∀ {id scale}, (table.get id).input.scale? = some scale →
      .zero < scale ∧ scale.isFinite = true)
    (h : seedScales pairs table = .ok given) {scale : Single}
    (hscale : (given.get id).input.scale? = some scale) :
    .zero < scale ∧ scale.isFinite = true := by
  induction pairs generalizing table with
  | nil =>
      obtain rfl := Except.ok.inj h
      exact htable hscale
  | cons pair rest ih =>
      obtain ⟨first, value⟩ := pair
      obtain ⟨hvalid, _, hrest⟩ := seedScales_cons_eq_ok h
      refine ih (fun {id scale} hscale => ?_) hrest
      change ((EdgeTable.modify _ _ _).get id).input.scale? = some scale at hscale
      rw [get_modify] at hscale
      split at hscale
      · obtain rfl := Option.some.inj hscale
        exact hvalid
      · exact htable hscale

/-- Seeding keeps whatever of an entry does not depend on the range of its output. -/
theorem seedLayers_entry {α : Type} (Φ : LayerEdges → α)
    (hΦ : ∀ edges range, Φ { edges with output := edges.output.setRange range } = Φ edges)
    (store : Store) (layers : List Layer) (seeded : Nat) (table : EdgeTable) (id : Nat) :
    Φ ((seedLayers store layers seeded table).1.get id) = Φ (table.get id) := by
  induction layers generalizing seeded table with
  | nil => rfl
  | cons layer rest ih =>
      unfold seedLayers
      split
      · exact ih seeded table
      · split
        · rw [ih]
          show Φ ((EdgeTable.modify _ _ _).get id) = _
          rw [get_modify]
          split
          · exact hΦ _ _
          · rfl
        · rfl

/-- Normalizing keeps whatever of an entry it does not change. -/
theorem normalizeIds_entry {α : Type} (Φ : LayerEdges → α) (maxFeature : Single)
    (ids : List Nat) (table : EdgeTable) (id : Nat)
    (hΦ : id ∈ ids → ∀ edges, Φ (normalizeEdges maxFeature edges) = Φ edges) :
    Φ ((normalizeIds maxFeature ids table).1.get id) = Φ (table.get id) := by
  induction ids generalizing table with
  | nil => rfl
  | cons first rest ih =>
      unfold normalizeIds
      split
      · rw [ih _ fun hid => hΦ (List.mem_cons_of_mem _ hid), get_modify]
        split
        · rename_i heq
          exact hΦ (by simp [heq.1]) _
        · rfl
      · rfl

/-- The steps of a calibration that succeeds. -/
theorem calibrate_eq_ok {records : Store} {ranged : EdgeTable} {count : Nat}
    {report : Propagation}
    (h : table.calibrate config network records = .ok (ranged, count, report)) :
    (table.seed network records).2 = .ok count ∧
      ((table.seed network records).1.normalizeInputs network config.maxInputFeature).2 = .ok () ∧
      config.propagator.propagate network
        ((table.seed network records).1.normalizeInputs network config.maxInputFeature).1 =
          (ranged, .ok report) := by
  unfold calibrate at h
  obtain ⟨seeded, hseeded, h⟩ := bind_eq_ok.1 h
  obtain ⟨_, hnormalized, h⟩ := bind_eq_ok.1 h
  obtain ⟨propagation, hpropagation, h⟩ := bind_eq_ok.1 h
  simp only [pure, Except.pure, Except.ok.injEq, Prod.mk.injEq] at h
  obtain ⟨rfl, rfl, rfl⟩ := h
  exact ⟨hseeded, hnormalized, Prod.ext rfl hpropagation⟩

/-- A calibration leaves the scales of inputs alone. -/
theorem calibrate_input_scale? {records : Store} {ranged : EdgeTable} {count : Nat}
    {report : Propagation}
    (h : table.calibrate config network records = .ok (ranged, count, report)) (id : Nat) :
    (ranged.get id).input.scale? = (table.get id).input.scale? := by
  obtain ⟨_, _, hpropagation⟩ := calibrate_eq_ok h
  have hrest := config.propagator.propagate_rest network
    ((table.seed network records).1.normalizeInputs network config.maxInputFeature).1 id
  rw [hpropagation] at hrest
  have hpropagated := congrArg (·.input.scale?) hrest
  have hnormalized := normalizeIds_entry (·.input.scale?) config.maxInputFeature network.inputs
    (table.seed network records).1 id fun _ edges => by
      unfold normalizeEdges
      split <;> simp_all [Edge.setRange, Edge.setAggregated]
  have hseeded := seedLayers_entry (·.input.scale?) (fun _ _ => rfl) records
    network.layers.toList 0 table id
  exact hpropagated.trans (hnormalized.trans hseeded)

end EdgeTable

namespace Converter

variable {converter : Converter} {layer : Layer} {edges : LayerEdges}

@[simp] theorem convertEdges_input_scale? :
    (converter.convertEdges layer edges).input.scale? = edges.input.scale? := by
  unfold convertEdges
  split <;> rfl

@[simp] theorem convertEdges_output :
    (converter.convertEdges layer edges).output =
      { edges.output with levels := converter.levels } := by
  unfold convertEdges
  split <;> rfl

@[simp] theorem convertEdges_weights_scale? :
    (converter.convertEdges layer edges).weights.scale? = edges.weights.scale? := by
  unfold convertEdges weightEdge
  split
  · dsimp only
    split <;> rfl
  · rfl

@[simp] theorem convertEdges_bias : (converter.convertEdges layer edges).bias = edges.bias := by
  unfold convertEdges
  split <;> rfl

end Converter

/-- Converting a first layer succeeds if it is in the network and has an entry. -/
theorem Converter.convertIds_cons_eq_ok {converter : Converter} {first : Nat} {rest : List Nat}
    {result : EdgeTable} {layers : List ConvertedLayer}
    (h : converter.convertIds network (first :: rest) table = .ok (result, layers)) :
    ∃ layer later, network.layer? first = some layer ∧ layer.id < table.size ∧
      converter.convertIds network rest (table.modify layer.id (converter.convertEdges layer)) =
        .ok (result, later) ∧
      layers = converter.convertLayer layer (table.get layer.id) :: later := by
  unfold convertIds at h
  split at h
  · cases h
  · rename_i layer hlayer
    obtain ⟨⟨changed, converted⟩, hconvert, h⟩ := bind_eq_ok.1 h
    obtain ⟨⟨last, later⟩, hlater, h⟩ := bind_eq_ok.1 h
    obtain ⟨rfl, rfl⟩ := by simpa [pure, Except.pure] using h
    unfold convert at hconvert
    split at hconvert
    · rename_i hsize
      obtain ⟨rfl, rfl⟩ := by simpa using hconvert
      exact ⟨layer, later, hlayer, hsize, hlater, rfl⟩
    · cases hconvert

/-- Conversion keeps whatever of an entry it does not change. -/
theorem Converter.convertIds_entry {α : Type} (Φ : LayerEdges → α) {converter : Converter}
    (hΦ : ∀ layer edges, Φ (converter.convertEdges layer edges) = Φ edges) {ids : List Nat}
    {result : EdgeTable} {layers : List ConvertedLayer}
    (h : converter.convertIds network ids table = .ok (result, layers)) (id : Nat) :
    Φ (result.get id) = Φ (table.get id) := by
  induction ids generalizing table layers with
  | nil =>
      obtain ⟨rfl, rfl⟩ := by simpa [convertIds] using h
      rfl
  | cons first rest ih =>
      obtain ⟨layer, later, _, _, hlater, _⟩ := convertIds_cons_eq_ok h
      rw [ih hlater, EdgeTable.get_modify]
      split
      · exact hΦ _ _
      · rfl

namespace Staged

variable (staged : Staged config network scales store quantized)

include staged

/-- The inputs have been given scales. -/
theorem seedScales_eq : network.inputs.length ≤ scales.length ∧
    EdgeTable.seedScales (network.inputs.zip scales) (.empty network.size) =
      .ok staged.given := by
  have hseed := staged.seedInputs_eq
  unfold EdgeTable.seedInputs at hseed
  split at hseed
  · cases hseed
  · split at hseed
    · cases hseed
    · rename_i henough
      exact ⟨Nat.le_of_not_lt henough, hseed⟩

/-- The table with the given scales has an entry for every layer. -/
theorem given_size : staged.given.size = network.size := by
  rw [EdgeTable.seedScales_size staged.seedScales_eq.2]
  simp [EdgeTable.empty, EdgeTable.size]

/-- The sweep starts from the table with the given scales, or from a calibrated one. -/
theorem ranged_cases : staged.ranged = staged.given ∨ ∃ records seeded report,
    staged.given.calibrate config network records = .ok (staged.ranged, seeded, report) := by
  rcases Option.eq_none_or_eq_some store with hstore | ⟨records, hstore⟩
  · exact Or.inl (staged.ranged_eq hstore)
  · obtain ⟨seeded, report, hcalibrate⟩ := staged.calibrate_eq hstore
    exact Or.inr ⟨records, seeded, report, hcalibrate⟩

/-- The sweep starts from the table that the settings and the statistics determine. -/
theorem rangedTable_eq : config.rangedTable network scales store = .ok staged.ranged := by
  unfold Config.rangedTable
  cases store with
  | none =>
      rw [staged.seedInputs_eq, staged.ranged_eq rfl]
      rfl
  | some records =>
      obtain ⟨seeded, report, hcalibrate⟩ := staged.calibrate_eq rfl
      simp only [staged.seedInputs_eq, bind, Except.bind, hcalibrate, Except.map]

/-- The sweep starts with the scales of inputs as they were given. -/
theorem ranged_input_scale? (id : Nat) :
    (staged.ranged.get id).input.scale? = (staged.given.get id).input.scale? := by
  rcases staged.ranged_cases with hsame | ⟨_, _, _, hcalibrate⟩
  · rw [hsame]
  · exact EdgeTable.calibrate_input_scale? hcalibrate id

/-- The graph inputs go into the sweep with positive finite scales. -/
theorem ranged_given {scale : Single}
    (hscale : (staged.ranged.get id).input.scale? = some scale) :
    .zero < scale ∧ scale.isFinite = true := by
  rw [staged.ranged_input_scale?] at hscale
  refine EdgeTable.seedScales_given (fun {id scale} hscale => ?_) staged.seedScales_eq.2 hscale
  by_cases hid : id < network.size <;> simp [EdgeTable.empty, EdgeTable.get, hid] at hscale

/-- The sweep of a quantization is a chain of steps after which every layer is settled. -/
theorem reaches (hbuilt : network.Built) :
    staged.plan.Standard ∧ staged.plan.network = network ∧
      staged.plan.Sound 0 (.start staged.plan.network staged.ranged) ∧
      staged.plan.Reaches (.start staged.plan.network staged.ranged) staged.final ∧
      staged.plan.Sound staged.plan.network.size staged.final := by
  obtain ⟨hplan, hnetwork, _⟩ := SweepPlan.standard_of_sweepPlan hbuilt staged.valid staged.plan_eq
  have hrun : staged.plan.run (.start staged.plan.network staged.ranged) =
      (staged.final, .ok ()) := by
    rw [hnetwork]
    exact staged.run_eq
  obtain ⟨hstart, hreaches, hsound⟩ :=
    SweepPlan.run_reaches hplan (fun _ _ hscale => staged.ranged_given hscale) hrun
  exact ⟨hplan, hnetwork, hstart, hreaches, hsound⟩

theorem rule_eq (hbuilt : network.Built) : staged.plan.rule = config.scaleRule :=
  (SweepPlan.standard_of_sweepPlan hbuilt staged.valid staged.plan_eq).2.2

/-- The result has the entries that the sweep has left, but for what the conversion adds. -/
theorem entry {α : Type} (Φ : LayerEdges → α)
    (hΦ : ∀ layer edges, Φ (config.converter.convertEdges layer edges) = Φ edges) (id : Nat) :
    Φ (quantized.table.get id) = Φ (staged.final.table.get id) := by
  obtain ⟨layers, hconvert⟩ := staged.convert_eq
  exact Converter.convertIds_entry Φ hΦ hconvert id

theorem input_scale (id : Nat) :
    (quantized.table.get id).input.scale = (staged.final.table.get id).input.scale :=
  staged.entry (·.input.scale) (fun _ _ => by simp [Edge.scale]) id

theorem output_scale (id : Nat) :
    (quantized.table.get id).output.scale = (staged.final.table.get id).output.scale :=
  staged.entry (·.output.scale) (fun _ _ => by simp [Edge.scale]) id

theorem weights_scale (id : Nat) :
    (quantized.table.get id).weights.scale = (staged.final.table.get id).weights.scale :=
  staged.entry (·.weights.scale) (fun _ _ => by simp [Edge.scale]) id

theorem bias_scale (id : Nat) :
    (quantized.table.get id).bias.scale = (staged.final.table.get id).bias.scale :=
  staged.entry (·.bias.scale) (fun _ _ => by simp) id

theorem output_range? (id : Nat) :
    (quantized.table.get id).output.range? = (staged.final.table.get id).output.range? :=
  staged.entry (·.output.range?) (fun _ _ => by simp) id

end Staged

end LayerQuant
