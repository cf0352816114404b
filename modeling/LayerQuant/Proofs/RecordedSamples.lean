import Mathlib
import LayerQuant.Proofs.Comparison
import LayerQuant.Proofs.InPlace
import LayerQuant.Proofs.SessionSnapshot

/-!
# What a record knows of its samples

The calls of a session change its store in place, one record after the other (`Call.record`). All
records of a call belong to one layer, so a call is carried out as a whole or leaves no trace
(`Call.writesTo_record`). After any calls the count and the extrema of a record are those of the
samples that it received, whatever came in which batch and in which order: see `Record.Summarizes`
and `statistics_depend_on_samples`. Sums are left out: rounding makes them depend on the order.
-/

namespace LayerQuant

open Binary

/-! ## Records -/

/-- The count and the extrema of the record are those of the samples: as many as there are, and the
smallest and the largest number among them and the extrema of an untouched record. -/
structure Record.Summarizes (record : Record) (samples : List Single) : Prop where
  count : record.count = UInt64.ofNat samples.length
  minimum : IsSmallest record.minimum (startMinimum :: samples)
  maximum : IsLargest record.maximum (startMaximum :: samples)

/-- The records agree in their count and, as numbers, in their extrema. -/
structure Record.SameExtent (a b : Record) : Prop where
  count : a.count = b.count
  minimum : a.minimum.sameNumber b.minimum = true
  maximum : a.maximum.sameNumber b.maximum = true

theorem isNaN_startMinimum : startMinimum.isNaN = false := by decide +kernel

theorem isNaN_startMaximum : startMaximum.isNaN = false := by decide +kernel

namespace Record.Summarizes

variable {record other : Record} {samples received : List Single}

/-- What names a record does not matter. -/
theorem rename (h : record.Summarizes samples) (name : String) :
    { record with name }.Summarizes samples :=
  ⟨h.count, h.minimum, h.maximum⟩

theorem untouched (name : String) : ({ name } : Record).Summarizes [] := by
  refine ⟨rfl, ?_, ?_⟩
  · exact isSmallest_foldl_lower [] isNaN_startMinimum
  · exact isLargest_foldl_higher [] isNaN_startMaximum

theorem minimum_number (h : record.Summarizes samples) : record.minimum.isNaN = false :=
  number_of_le_left (h.minimum.le List.mem_cons_self isNaN_startMinimum)

theorem maximum_number (h : record.Summarizes samples) : record.maximum.isNaN = false :=
  number_of_le_right (h.maximum.le List.mem_cons_self isNaN_startMaximum)

/-- A record that summarizes samples summarizes those that are folded into it as well. -/
theorem fold (h : record.Summarizes received) (batch : List Single) :
    (record.fold batch).Summarizes (received ++ batch) := by
  cases batch with
  | nil => simpa using h
  | cons x rest =>
      refine ⟨?_, ?_, ?_⟩
      · show record.count + UInt64.ofNat (x :: rest).length = _
        rw [h.count, List.length_append, UInt64.ofNat_add]
      · exact h.minimum.append (isSmallest_foldl_lower (x :: rest) h.minimum_number)
      · exact h.maximum.append (isLargest_foldl_higher (x :: rest) h.maximum_number)

/-- Records that summarize the same samples in any order agree. -/
theorem sameExtent (h : record.Summarizes samples) (h' : other.Summarizes received)
    (hperm : samples.Perm received) : record.SameExtent other := by
  have hmem : ∀ start x, x ∈ start :: samples ↔ x ∈ start :: received := fun start _ =>
    (hperm.cons start).mem_iff
  refine ⟨?_, ?_, ?_⟩
  · rw [h.count, h'.count, hperm.length_eq]
  · exact h.minimum.sameNumber h'.minimum (hmem _) h.minimum_number
  · exact h.maximum.sameNumber h'.maximum (hmem _) h.maximum_number

end Record.Summarizes

/-! ## Writes to one layer -/

namespace Store

/-- The program writes to the records of one layer. If the store has no such layer, the program
fails and leaves the store as it was. -/
def WritesTo (layer : Nat) (write : LayerStatistics → LayerStatistics)
    (program : InPlace StoreError Store Unit) : Prop :=
  ∀ store : Store, program.perform store =
    if layer < store.size then (.ok (), ⟨store.layers.modify layer write⟩)
    else (.error (.layerOutOfRange layer store.size), store)

theorem writesTo_modify (layer : Nat) (role : Role) (change : Record → Record) :
    WritesTo layer (·.modify role change) (.change (·.modify layer role change)) := by
  intro store
  rw [InPlace.perform_change]
  unfold Store.modify
  by_cases hlayer : layer < store.size
  · simp only [hlayer, if_true]
  · simp only [hlayer, if_false]

/-- Two programs that write to the same layer are one. The second one cannot fail, since the first
one keeps the size of the store. -/
theorem WritesTo.andThen {layer : Nat} {write later : LayerStatistics → LayerStatistics}
    {first second : InPlace StoreError Store Unit} (h : WritesTo layer write first)
    (h' : WritesTo layer later second) :
    WritesTo layer (later ∘ write) (first >>= fun _ => second) := by
  intro store
  rw [InPlace.perform_bind, h store]
  by_cases hlayer : layer < store.size
  · have hsize : layer < (⟨store.layers.modify layer write⟩ : Store).size := by
      show layer < (store.layers.modify layer write).size
      rwa [Array.size_modify]
    simp only [hlayer, if_true, h' ⟨store.layers.modify layer write⟩, hsize, modify_modify]
  · simp only [hlayer, if_false]

end Store

/-! ## Calls in place -/

namespace Session.Call

/-- A call on the store that a session holds. It changes one record after the other. -/
def record : Call → InPlace StoreError Store Unit
  | setName layer name => .change (·.setName layer name)
  | update layer role samples => .change (·.update layer role samples)
  | afterLayer layer inputs outputs => do
    .change (·.update layer .input inputs)
    .change (·.update layer .output outputs)
  | recordParameters layer weights biases => do
    .change (·.update layer .weight weights)
    match biases with
    | some biases => .change (·.update layer .bias biases)
    | none => pure ()

/-- What a call that succeeds does to the records of its layer. -/
def write : Call → LayerStatistics → LayerStatistics
  | setName _ name, layer => layer.modify .output ({ · with name := trimName name })
  | update _ role samples, layer => layer.modify role (·.fold samples)
  | afterLayer _ inputs outputs, layer =>
    (layer.modify .input (·.fold inputs)).modify .output (·.fold outputs)
  | recordParameters _ weights biases, layer =>
    (layer.modify .weight (·.fold weights)).modify .bias (·.fold (biases.getD []))

/-- The samples that a call has for the record of a role of its layer. -/
def batch : Call → Role → List Single
  | setName _ _, _ => []
  | update _ role samples, other => if other = role then samples else []
  | afterLayer _ inputs outputs, role =>
    match role with
    | .input => inputs
    | .output => outputs
    | .weight | .bias => []
  | recordParameters _ weights biases, role =>
    match role with
    | .weight => weights
    | .bias => biases.getD []
    | .input | .output => []

/-- The samples that a call delivers to a record if it succeeds. -/
def samplesFor (call : Call) (layer : Nat) (role : Role) : List Single :=
  if call.layer = layer then call.batch role else []

/-- Whether a call names a layer. -/
def renames : Call → Bool
  | setName _ _ => true
  | update _ _ _ | afterLayer _ _ _ | recordParameters _ _ _ => false

/-- A call folds its batches into the records of its layer, unless it only names one. -/
theorem get_write {call : Call} (h : call.renames = false) (records : LayerStatistics)
    (role : Role) :
    (call.write records).get role = (records.get role).fold (call.batch role) := by
  cases call with
  | setName layer name => cases h
  | update layer target samples =>
      show (records.modify target (·.fold samples)).get role =
        (records.get role).fold (if role = target then samples else [])
      by_cases hrole : role = target
      · rw [hrole, if_pos rfl, LayerStatistics.get_modify_self]
      · rw [if_neg hrole, LayerStatistics.get_modify_of_ne records hrole, Record.fold_nil]
  | afterLayer layer inputs outputs => cases role <;> rfl
  | recordParameters layer weights biases => cases role <;> rfl

/-- A call that names a layer leaves the numbers of its records. -/
theorem get_write_of_renames {call : Call} (h : call.renames = true) (records : LayerStatistics)
    (role : Role) :
    ∃ name, (call.write records).get role =
      { (records.get role).fold (call.batch role) with name } := by
  cases call with
  | setName layer name =>
      cases role with
      | output => exact ⟨trimName name, rfl⟩
      | input | weight | bias => exact ⟨_, rfl⟩
  | update | afterLayer | recordParameters => cases h

/-- A call writes to the records of its layer, all that it has to write, or it fails and leaves the
store as it was. -/
theorem writesTo_record (call : Call) : Store.WritesTo call.layer call.write call.record := by
  cases call with
  | setName layer name => exact Store.writesTo_modify layer .output _
  | update layer role samples => exact Store.writesTo_modify layer role _
  | afterLayer layer inputs outputs =>
      exact (Store.writesTo_modify layer .input _).andThen (Store.writesTo_modify layer .output _)
  | recordParameters layer weights biases =>
      have hweights := Store.writesTo_modify layer .weight (·.fold weights)
      cases biases with
      | some biases => exact hweights.andThen (Store.writesTo_modify layer .bias _)
      | none =>
          show Store.WritesTo layer _ (InPlace.change (·.update layer .weight weights) >>= pure)
          rw [bind_pure]
          exact hweights

end Session.Call

namespace Session

/-- The session that a program on its store leaves, or the error that it returns. -/
def outcome (session : Session) : Except StoreError Unit × Store → Except Error Session
  | (.ok _, store) => .ok { session with store }
  | (.error error, _) => .error (.store error)

theorem change_eq (session : Session) (operation : Store → Except StoreError Store) :
    session.change operation =
      session.outcome ((InPlace.change operation).perform session.store) := by
  rw [InPlace.perform_change]
  unfold change
  cases operation session.store <;> rfl

/-- Two changes in a row are those of the two programs in a row. -/
theorem change_bind (session : Session) (first second : Store → Except StoreError Store) :
    (session.change first >>= (·.change second)) =
      session.outcome ((do
        InPlace.change first
        InPlace.change second : InPlace StoreError Store Unit).perform session.store) := by
  rw [change_eq, InPlace.perform_bind]
  cases (InPlace.change first).perform session.store with
  | mk result store =>
      cases result with
      | error error => rfl
      | ok =>
          show ({ session with store } : Session).change second = _
          exact change_eq _ second

/-- A call in place does to the store what the call on the session returns. -/
theorem Call.perform_eq (call : Call) (session : Session) :
    call.perform session = session.outcome (call.record.perform session.store) := by
  cases call with
  | setName layer name => exact change_eq session (·.setName layer name)
  | update layer role samples => exact change_eq session (·.update layer role samples)
  | afterLayer layer inputs outputs => exact change_bind session _ _
  | recordParameters layer weights biases =>
      cases biases with
      | some biases => exact change_bind session _ _
      | none =>
          show (session.update layer .weight weights >>= pure) = session.outcome
            ((InPlace.change (·.update layer .weight weights) >>= pure).perform session.store)
          rw [bind_pure, bind_pure]
          exact change_eq session _

end Session

/-! ## Sequences of calls -/

namespace Store

variable {store : Store} {calls : List Session.Call} {layer : Nat} {role : Role}

/-- The store that calls leave one after the other, whatever each of them returns. -/
def afterCalls (store : Store) (calls : List Session.Call) : Store :=
  calls.foldl (fun store call => (call.record.perform store).2) store

/-- The samples that a call delivers to a record, which are none if it fails. -/
def delivered (store : Store) (call : Session.Call) (layer : Nat) (role : Role) : List Single :=
  match (call.record.perform store).1 with
  | .ok _ => call.samplesFor layer role
  | .error _ => []

/-- The samples that calls deliver to a record one after the other. -/
def received (store : Store) : List Session.Call → Nat → Role → List Single
  | [], _, _ => []
  | call :: rest, layer, role =>
    store.delivered call layer role ++ received (call.record.perform store).2 rest layer role

/-- Every record summarizes the samples that are listed for it. -/
def Summarizes (store : Store) (samples : Nat → Role → List Single) : Prop :=
  ∀ layer role record, store.record layer role = .ok record →
    record.Summarizes (samples layer role)

/-- A store that was just made, or that of a session that just started. -/
inductive Fresh : Store → Prop where
  | empty (count : Nat) : Fresh (.empty count)
  | session (names : List String) (path : String) : Fresh (Session.start names path).store

/-- A record after a call is the one before it with what the call delivered folded in, and possibly
with a name. -/
theorem record_perform {call : Session.Call} {record : Record}
    (h : (call.record.perform store).2.record layer role = .ok record) :
    ∃ before name, store.record layer role = .ok before ∧
      record = { before.fold (store.delivered call layer role) with name } ∧
      (call.renames = false → name = before.name) := by
  unfold delivered
  rw [call.writesTo_record store] at h ⊢
  by_cases hcall : call.layer < store.size
  · rw [if_pos hcall] at h ⊢
    obtain ⟨records, hlayer, rfl⟩ := record_eq_ok.1 h
    rw [Array.getElem?_modify] at hlayer
    unfold Session.Call.samplesFor
    split at hlayer
    · rename_i heq
      obtain ⟨before, hbefore, rfl⟩ := Option.map_eq_some_iff.1 hlayer
      have hrecord : store.record layer role = .ok (before.get role) :=
        record_eq_ok.2 ⟨before, hbefore, rfl⟩
      dsimp only
      rw [if_pos heq]
      cases hrenames : call.renames with
      | false =>
          rw [Session.Call.get_write hrenames before role]
          exact ⟨before.get role, _, hrecord, rfl, fun _ => Record.name_fold _ _⟩
      | true =>
          obtain ⟨name, hget⟩ := Session.Call.get_write_of_renames hrenames before role
          exact ⟨before.get role, name, hrecord, hget, fun hfalse => by cases hfalse⟩
    · rename_i hne
      dsimp only
      rw [if_neg hne]
      exact ⟨records.get role, _, record_eq_ok.2 ⟨records, hlayer, rfl⟩, rfl, fun _ => rfl⟩
  · rw [if_neg hcall] at h ⊢
    exact ⟨record, record.name, h, rfl, fun _ => rfl⟩

/-- After any calls every record summarizes what it received from them as well. -/
theorem Summarizes.afterCalls {samples : Nat → Role → List Single} (h : store.Summarizes samples)
    (calls : List Session.Call) : (store.afterCalls calls).Summarizes fun layer role =>
      samples layer role ++ store.received calls layer role := by
  induction calls generalizing store samples with
  | nil => simpa [Store.afterCalls, received] using h
  | cons call rest ih =>
      have hstep : (call.record.perform store).2.Summarizes fun layer role =>
          samples layer role ++ store.delivered call layer role := by
        intro layer role record hrecord
        obtain ⟨before, name, hbefore, rfl, _⟩ := record_perform hrecord
        exact ((h layer role before hbefore).fold _).rename name
      show ((call.record.perform store).2.afterCalls rest).Summarizes _
      simpa [received, List.append_assoc] using ih hstep

/-- The records of a fresh store have received nothing. -/
theorem Fresh.summarizes (h : store.Fresh) : store.Summarizes fun _ _ => [] := by
  intro layer role record hrecord
  obtain ⟨records, hlayer, rfl⟩ := record_eq_ok.1 hrecord
  have hmem := Array.mem_toList_iff.2 (Array.mem_of_getElem? hlayer)
  cases h with
  | empty count =>
      obtain rfl : records = {} := (List.mem_replicate.1 (by simpa [Store.empty] using hmem)).2
      cases role <;> exact .untouched ""
  | session names path =>
      obtain ⟨name, _, rfl⟩ := List.mem_map.1 hmem
      cases role <;> exact .untouched _

/-- Calls that name no layer leave all names as they are. -/
theorem name_afterCalls {record : Record} (hcalls : ∀ call ∈ calls, call.renames = false)
    (h : (store.afterCalls calls).record layer role = .ok record) :
    ∃ before, store.record layer role = .ok before ∧ record.name = before.name := by
  induction calls generalizing store with
  | nil => exact ⟨record, h, rfl⟩
  | cons call rest ih =>
      obtain ⟨between, hbetween, hname⟩ := ih (fun later hlater =>
        hcalls later (List.mem_cons_of_mem _ hlater)) h
      obtain ⟨before, name, hbefore, rfl, hsame⟩ := record_perform hbetween
      exact ⟨before, hbefore, hname.trans (hsame (hcalls call List.mem_cons_self))⟩

theorem size_afterCalls (store : Store) (calls : List Session.Call) :
    (store.afterCalls calls).size = store.size := by
  induction calls generalizing store with
  | nil => rfl
  | cons call rest ih =>
      show ((call.record.perform store).2.afterCalls rest).size = _
      rw [ih, call.writesTo_record store]
      split
      · exact Array.size_modify
      · rfl

/-- A store has records for exactly its layers. -/
theorem record_ok_iff : (∃ record, store.record layer role = .ok record) ↔ layer < store.size := by
  unfold Store.record Store.size
  cases hlayer : store.layers[layer]? with
  | none => simpa using hlayer
  | some records => simpa using (Array.getElem?_eq_some_iff.1 hlayer).1

/-- What a record of a fresh store has become after any calls. -/
theorem Fresh.record_afterCalls {before : Record} (h : store.Fresh) (calls : List Session.Call)
    (hbefore : store.record layer role = .ok before) :
    ∃ after, (store.afterCalls calls).record layer role = .ok after ∧
      after.Summarizes (store.received calls layer role) ∧
      ((∀ call ∈ calls, call.renames = false) → after.name = before.name) := by
  have hsize : layer < (store.afterCalls calls).size := by
    rw [size_afterCalls]
    exact record_ok_iff.1 ⟨before, hbefore⟩
  obtain ⟨after, hafter⟩ := record_ok_iff.2 hsize
  refine ⟨after, hafter, h.summarizes.afterCalls calls layer role after hafter, fun hcalls => ?_⟩
  obtain ⟨named, hnamed, hname⟩ := name_afterCalls hcalls hafter
  cases hnamed.symm.trans hbefore
  exact hname

/-- If two sequences of calls deliver the same samples to every record of a fresh store, in whatever
batches and order, and whichever of the calls fail, then every record ends with the same count and
the same extrema: as many samples as it received, counted modulo `2 ^ 64`, and the smallest and the
largest number among them and the starting extrema. Names stay as they are unless a call names a
layer. In place the calls do what they return of a session, and one that fails leaves the whole
store as it is. -/
theorem statistics_depend_on_samples {store : Store} {first second : List Session.Call}
    (hfresh : store.Fresh) (hsamples : ∀ layer role,
      (store.received first layer role).Perm (store.received second layer role)) :
    (store.afterCalls first).size = store.size ∧ (store.afterCalls second).size = store.size ∧
      (∀ {layer role before}, store.record layer role = .ok before → ∃ one other,
        (store.afterCalls first).record layer role = .ok one ∧
        (store.afterCalls second).record layer role = .ok other ∧
        one.Summarizes (store.received first layer role) ∧
        other.Summarizes (store.received second layer role) ∧ one.SameExtent other ∧
        ((∀ call ∈ first, call.renames = false) → one.name = before.name) ∧
        ((∀ call ∈ second, call.renames = false) → other.name = before.name)) ∧
      ∀ (session : Session) (call : Session.Call),
        call.perform session = session.outcome (call.record.perform session.store) ∧
        ∀ error, (call.record.perform session.store).1 = .error error →
          (call.record.perform session.store).2 = session.store := by
  refine ⟨size_afterCalls store first, size_afterCalls store second,
    fun {layer role before} hbefore => ?_, fun session call => ⟨call.perform_eq session, ?_⟩⟩
  · obtain ⟨one, hone, hsummary, hname⟩ := hfresh.record_afterCalls first hbefore
    obtain ⟨other, hother, hsummary', hname'⟩ := hfresh.record_afterCalls second hbefore
    exact ⟨one, other, hone, hother, hsummary, hsummary',
      hsummary.sameExtent hsummary' (hsamples layer role), hname, hname'⟩
  · intro error hfailed
    rw [call.writesTo_record session.store] at hfailed ⊢
    split at hfailed
    · cases hfailed
    · rename_i hcall
      rw [if_neg hcall]

/-- Samples of two layers, one of them not a number, in batches of a layer. -/
def layerwise : List Session.Call :=
  [.afterLayer 0 [.ofNat .single 3, .nan] [.ofNat .single 5], .afterLayer 7 [.nan] [],
    .recordParameters 1 [.ofNat .single 2, .ofNat .single 1] none]

/-- The same samples one by one, with an empty batch and another call that fails. -/
def samplewise : List Session.Call :=
  [.update 1 .weight [.ofNat .single 1], .update 0 .output [.ofNat .single 5],
    .update 0 .input [.nan], .recordParameters 1 [.ofNat .single 2] (some []),
    .update 9 .bias [.nan], .update 0 .input [.ofNat .single 3]]

theorem layerwise_as_samplewise : ∃ one other,
    ((empty 2).afterCalls layerwise).record 0 .input = .ok one ∧
      ((empty 2).afterCalls samplewise).record 0 .input = .ok other ∧ one.SameExtent other ∧
      one.count = 2 ∧ other.minimum ≤ .ofNat .single 3 ∧ other.name = "" := by
  have hsamples : ∀ layer role, ((empty 2).received layerwise layer role).Perm
      ((empty 2).received samplewise layer role) := by
    intro layer role
    rcases layer with _ | _ | layer
    · cases role <;> decide +kernel
    · cases role <;> decide +kernel
    · cases role <;> exact .refl _
  obtain ⟨_, _, hrecords, _⟩ := statistics_depend_on_samples (.empty 2) hsamples
  have hbefore : (empty 2).record 0 .input = .ok {} := rfl
  obtain ⟨one, other, hone, hother, hsummary, hsummary', hsame, _, hname⟩ := hrecords hbefore
  have hminimum : other.minimum ≤ .ofNat .single 3 :=
    hsummary'.minimum.le (by decide +kernel) (by decide +kernel)
  exact ⟨one, other, hone, hother, hsame, hsummary.count.trans (by decide +kernel), hminimum,
    hname (by decide)⟩

end Store

end LayerQuant
