import LayerQuant.Calibration.Session
import LayerQuant.Proofs.SnapshotRoundTrip

/-!
# What a session leaves behind

A session that ends writes a snapshot of its statistics, and the snapshot is read again with the
names and the sample counts of the session (`finish_loads`), whatever calls were made and whichever
of them failed. It takes a layer, since a snapshot without layers is rejected, and names on one line
each (`start_not_loaded`).
-/

namespace LayerQuant

namespace Folder

variable {folder written : Folder} {path : String} {bytes : ByteArray}

/-- Where a path leads does not depend on what the folder holds. -/
theorem follow_eq_ok {parts : List String} {target : Target} (h : folder.follow parts = .ok target)
    (other : Folder) : other.follow parts = .ok target := by
  induction parts with
  | nil => exact h
  | cons part rest ih =>
    unfold follow at h ⊢
    split at h
    · rename_i hskip
      rw [if_pos hskip]
      exact ih h
    rename_i hskip
    rw [if_neg hskip]
    split at h
    · rename_i hup
      rw [if_pos hup]
      exact h
    rename_i hup
    rw [if_neg hup]
    split at h
    · cases h
    rename_i hshort
    rw [if_neg hshort]
    split at h
    · rename_i hlast
      rw [if_pos hlast]
      exact h
    · split at h
      · cases h
      · cases h

theorem target_eq_ok {target : Target} (h : folder.target path = .ok target) (other : Folder) :
    other.target path = .ok target := by
  unfold Folder.target at h ⊢
  split_ifs at h ⊢ <;> first | exact h | exact follow_eq_ok h other

/-- What was written is read again. -/
theorem read_of_write (h : folder.write path bytes = .ok written) :
    written.read path = .ok bytes := by
  unfold write at h
  split at h
  · cases h
  · cases h
  · rename_i name closed htarget
    split at h
    · cases h
    · rename_i hopen
      cases h
      unfold read
      rw [target_eq_ok htarget]
      simp [find?, hopen]

end Folder

namespace Store

variable {store changed : Store} {layer : Nat} {role : Role}

/-- Names are trimmed, and only output records have one. -/
def NamesOutputs (store : Store) : Prop :=
  ∀ layer role record, store.record layer role = .ok record →
    trimName record.name = record.name ∧ (role ≠ .output → record.name = "")

theorem NamesOutputs.modify (h : store.NamesOutputs) {change : Record → Record}
    (hmodify : store.modify layer role change = .ok changed)
    (hchange : ∀ record : Record, (change record).name = record.name ∨
      role = .output ∧ trimName (change record).name = (change record).name) :
    changed.NamesOutputs := by
  intro other otherRole record hrecord
  obtain ⟨before, hbefore, rfl | ⟨rfl, rfl⟩⟩ := record_modify hmodify hrecord
  · exact h other otherRole _ hbefore
  · rcases hchange before with hsame | ⟨houtput, htrimmed⟩
    · rw [hsame]
      exact h other otherRole before hbefore
    · exact ⟨htrimmed, fun hother => absurd houtput hother⟩

/-- Names without line feeds fit a snapshot. -/
theorem NamesOutputs.hasStoredNames (h : store.NamesOutputs)
    (hlines : ∀ layer name, store.name layer = .ok name → '\n' ∉ name.toList) :
    store.HasStoredNames := by
  intro layer role record hrecord
  obtain ⟨htrimmed, hother⟩ := h layer role record hrecord
  by_cases hrole : role = .output
  · subst hrole
    refine ⟨htrimmed, hlines layer record.name ?_⟩
    unfold Store.name
    rw [hrecord]
    rfl
  · rw [hother hrole]
    exact isStoredName_empty

theorem name_reread (store : Store) (layer : Nat) :
    store.reread.name layer = store.name layer := by
  unfold Store.name
  rw [record_reread_eq]
  cases store.record layer .output <;> rfl

theorem count_reread (store : Store) (layer : Nat) (role : Role) :
    (store.reread.record layer role).map (·.count) =
      (store.record layer role).map (·.count) := by
  rw [record_reread_eq]
  cases store.record layer role <;> rfl

end Store

namespace Session

variable {session changed : Session}

/-! ## Calls -/

/-- A call on a session. -/
inductive Call where
  | setName (layer : Nat) (name : String)
  | update (layer : Nat) (role : Role) (samples : List Single)
  | afterLayer (layer : Nat) (inputs outputs : List Single)
  | recordParameters (layer : Nat) (weights : List Single) (biases : Option (List Single))

namespace Call

/-- The layer that a call is about. -/
def layer : Call → Nat
  | setName layer _ | update layer _ _ | afterLayer layer _ _ | recordParameters layer _ _ => layer

/-- Makes a call. -/
def perform (session : Session) : Call → Except Error Session
  | setName layer name => session.setName layer name
  | update layer role samples => session.update layer role samples
  | afterLayer layer inputs outputs => session.afterLayer layer inputs outputs
  | recordParameters layer weights biases => session.recordParameters layer weights biases

/-- The session after a call, which is the one before it if the call fails. -/
def apply (session : Session) (call : Call) : Session :=
  match call.perform session with
  | .ok changed => changed
  | .error _ => session

end Call

/-- The session after several calls. -/
def afterCalls (session : Session) (calls : List Call) : Session := calls.foldl Call.apply session

/-- What a call keeps: the path, the number of layers, and that names stand where they belong. -/
structure Keeps (session changed : Session) : Prop where
  path_eq : changed.path = session.path
  size_eq : changed.store.size = session.store.size
  names : session.store.NamesOutputs → changed.store.NamesOutputs

theorem Keeps.trans {between : Session} (h : session.Keeps between)
    (h' : between.Keeps changed) : session.Keeps changed :=
  ⟨h'.path_eq.trans h.path_eq, h'.size_eq.trans h.size_eq, fun hnames => h'.names (h.names hnames)⟩

/-- A change of the session is one of its store. -/
theorem change_eq_ok {apply : Store → Except StoreError Store} :
    session.change apply = .ok changed ↔
      ∃ store, apply session.store = .ok store ∧ changed = { session with store } := by
  unfold change
  split
  · rename_i store hstore
    rw [hstore]
    simp [eq_comm]
  · rename_i error herror
    rw [herror]
    simp

theorem keeps_setName {layer : Nat} {name : String} (h : session.setName layer name = .ok changed) :
    session.Keeps changed := by
  obtain ⟨store, hstore, rfl⟩ := change_eq_ok.1 h
  refine ⟨rfl, Store.size_modify hstore, fun hnames => hnames.modify hstore fun record => ?_⟩
  exact Or.inr ⟨rfl, trimName_trimName name⟩

theorem keeps_update {layer : Nat} {role : Role} {samples : List Single}
    (h : session.update layer role samples = .ok changed) : session.Keeps changed := by
  obtain ⟨store, hstore, rfl⟩ := change_eq_ok.1 h
  refine ⟨rfl, Store.size_modify hstore, fun hnames => hnames.modify hstore fun record => ?_⟩
  exact Or.inl (Record.name_fold record samples)

/-- Every call that succeeds keeps the session in order. -/
theorem Call.keeps {call : Call} (h : call.perform session = .ok changed) :
    session.Keeps changed := by
  cases call with
  | setName layer name => exact keeps_setName h
  | update layer role samples => exact keeps_update h
  | afterLayer layer inputs outputs =>
    obtain ⟨between, hinput, houtput⟩ := bind_eq_ok.1 h
    exact (keeps_update hinput).trans (keeps_update houtput)
  | recordParameters layer weights biases =>
    obtain ⟨between, hweight, hbias⟩ := bind_eq_ok.1 h
    cases biases with
    | none =>
      cases hbias
      exact keeps_update hweight
    | some biases => exact (keeps_update hweight).trans (keeps_update hbias)

/-- A change of one record succeeds exactly for the layers of a session. -/
theorem change_ok_iff {layer : Nat} {role : Role} {change : Record → Record} :
    (∃ changed, session.change (·.modify layer role change) = .ok changed) ↔
      layer < session.store.size := by
  constructor
  · rintro ⟨changed, h⟩
    obtain ⟨store, hstore, _⟩ := change_eq_ok.1 h
    by_contra hlayer
    unfold Store.modify at hstore
    rw [if_neg hlayer] at hstore
    cases hstore
  · intro hlayer
    exact ⟨_, change_eq_ok.2 ⟨_, if_pos hlayer, rfl⟩⟩

/-- Two updates of one layer succeed or fail together. -/
theorem update_update_ok_iff {layer : Nat} {role other : Role} {samples later : List Single} :
    (∃ changed, (session.update layer role samples >>= (·.update layer other later)) =
      .ok changed) ↔ layer < session.store.size := by
  constructor
  · rintro ⟨changed, h⟩
    obtain ⟨between, hfirst, _⟩ := bind_eq_ok.1 h
    exact change_ok_iff.1 ⟨between, hfirst⟩
  · intro hlayer
    obtain ⟨between, hfirst⟩ : ∃ between, session.update layer role samples = .ok between :=
      change_ok_iff.2 hlayer
    have hsize := (keeps_update hfirst).size_eq
    obtain ⟨changed, hsecond⟩ : ∃ changed, between.update layer other later = .ok changed :=
      change_ok_iff.2 (hlayer.trans_eq hsize.symm)
    exact ⟨changed, bind_eq_ok.2 ⟨between, hfirst, hsecond⟩⟩

/-- A call fails exactly if the session has no such layer. So a call that fails does so with its
first change, and the session is as it was. -/
theorem Call.perform_ok_iff {call : Call} :
    (∃ changed, call.perform session = .ok changed) ↔ call.layer < session.store.size := by
  cases call with
  | setName layer name => exact change_ok_iff
  | update layer role samples => exact change_ok_iff
  | afterLayer layer inputs outputs => exact update_update_ok_iff
  | recordParameters layer weights biases =>
    cases biases with
    | some biases => exact update_update_ok_iff
    | none =>
      show (∃ changed, (session.update layer .weight weights >>= fun session => .ok session) =
        .ok changed) ↔ _
      simp only [bind_eq_ok, Except.ok.injEq, exists_eq_right]
      exact change_ok_iff

/-- Any calls keep the session in order. -/
theorem keeps_afterCalls (session : Session) (calls : List Call) :
    session.Keeps (session.afterCalls calls) := by
  unfold afterCalls
  induction calls generalizing session with
  | nil => exact ⟨rfl, rfl, id⟩
  | cons call later ih =>
    have hfirst : session.Keeps (call.apply session) := by
      unfold Call.apply
      split
      · rename_i changed hperform
        exact Call.keeps hperform
      · exact ⟨rfl, rfl, id⟩
    exact hfirst.trans (ih (call.apply session))

/-! ## The end of a session -/

variable {names : List String} {path : String}

theorem size_start : (start names path).store.size = names.length := by
  simp [start, Store.size]

/-- A session starts with trimmed names of outputs. -/
theorem namesOutputs_start : (start names path).store.NamesOutputs := by
  intro layer role record hrecord
  obtain ⟨statistics, hlayer, rfl⟩ := Store.record_eq_ok.1 hrecord
  have hmem := Array.mem_toList_iff.2 (Array.mem_of_getElem? hlayer)
  obtain ⟨name, _, rfl⟩ := List.mem_map.1 hmem
  cases role with
  | output => exact ⟨trimName_trimName name, fun hother => absurd rfl hother⟩
  | input | weight | bias => exact ⟨rfl, fun _ => rfl⟩

/-- A session that ends hands back its statistics, and the snapshot is written. -/
theorem finish_eq_ok {folder written : Folder} {store : Store} :
    session.finish folder = .ok (store, written) ↔
      folder.write session.path (Snapshot.write session.store).toUTF8 = .ok written ∧
        session.store = store := by
  unfold finish Snapshot.save
  cases folder.write session.path (Snapshot.write session.store).toUTF8 with
  | ok file => simp [and_comm]
  | error fault => simp

/-- If a session for at least one layer ends with its snapshot written, whatever calls were made and
however many of them failed, and no layer has a name with a line feed by then, the snapshot is read
again: for as many layers, with their names and all sample counts. The number of records has to fit
64 bits, which holds of every session in memory. -/
theorem finish_loads {calls : List Call} {folder written : Folder} {store : Store}
    (hnames : names ≠ []) (hbound : Role.all.length * names.length < Nat.pow 2 64)
    (hfinish : ((start names path).afterCalls calls).finish folder = .ok (store, written))
    (hlines : ∀ layer name, store.name layer = .ok name → '\n' ∉ name.toList) :
    ∃ again, Snapshot.load (written.read path) = .ok again ∧ again.size = names.length ∧
      (∀ layer, again.name layer = store.name layer) ∧
      ∀ layer role, (again.record layer role).map (·.count) =
        (store.record layer role).map (·.count) := by
  have hkeeps := (start names path).keeps_afterCalls calls
  generalize (start names path).afterCalls calls = session at hfinish hkeeps
  obtain ⟨hpath, hsize, hkept⟩ := hkeeps
  rw [size_start] at hsize
  obtain ⟨hwrite, rfl⟩ := finish_eq_ok.1 hfinish
  have hread := Folder.read_of_write hwrite
  rw [hpath] at hread
  have hlayers : 0 < session.store.size := by
    rw [hsize]
    exact List.length_pos_iff.2 hnames
  have hnames : session.store.HasStoredNames :=
    (hkept namesOutputs_start).hasStoredNames hlines
  refine ⟨session.store.reread, ?_, (Store.size_reread _).trans hsize, Store.name_reread _,
    Store.count_reread _⟩
  show Snapshot.load (written.read (start names path).path) = _
  rw [hread]
  exact Snapshot.read_write_eq hlayers (hsize ▸ hbound) hnames

/-- A session whose only layer was renamed, in which one call failed. -/
def renamed : Session :=
  (start ["conv\n1"] "s").afterCalls
    [.setName 0 " conv 1 ", .update 7 .weight [], .afterLayer 0 [.ofNat .single 1] []]

theorem write_snapshot (bytes : ByteArray) :
    Folder.write {} "s" bytes = .ok ⟨[("s", bytes)]⟩ := by
  have htarget : Folder.target {} "s" = .ok (.file "s" false) := by cbv
  unfold Folder.write
  rw [htarget]
  rfl

theorem renamed_loads :
    ∃ store written again, renamed.finish {} = .ok (store, written) ∧
      Snapshot.load (written.read "s") = .ok again ∧ again.name 0 = .ok "conv 1" ∧
      (again.record 0 .input).map (·.count) = .ok 1 := by
  have hfinish : renamed.finish {} = .ok (renamed.store,
      ⟨[("s", (Snapshot.write renamed.store).toUTF8)]⟩) :=
    finish_eq_ok.2 ⟨write_snapshot _, rfl⟩
  have hname : renamed.store.name 0 = .ok "conv 1" := by rfl
  have hlines : ∀ layer name, renamed.store.name layer = .ok name → '\n' ∉ name.toList := by
    intro layer name h
    rcases layer with _ | layer
    · cases hname.symm.trans h
      decide
    · cases h
  obtain ⟨again, hload, _, hnames, hcounts⟩ :=
    finish_loads (by decide) (by decide) hfinish hlines
  exact ⟨_, _, again, hfinish, hload, (hnames 0).trans hname, (hcounts 0 .input).trans (by rfl)⟩

/-- What is loaded has a layer, and names on one line each. -/
theorem names_of_load {content : FileContent} {store : Store}
    (h : Snapshot.load content = .ok store) :
    0 < store.size ∧ ∀ layer name, store.name layer = .ok name → '\n' ∉ name.toList := by
  unfold Snapshot.load at h
  split at h
  · obtain ⟨hlayers, _, hnames⟩ := Snapshot.names_of_read h
    refine ⟨hlayers, fun layer name hname => ?_⟩
    unfold Store.name at hname
    cases hrecord : store.record layer .output with
    | error error =>
      rw [hrecord] at hname
      cases hname
    | ok record =>
      rw [hrecord] at hname
      cases hname
      exact (hnames layer .output record hrecord).oneLine
  · cases h

/-- The snapshot of a store without layers is rejected. -/
theorem read_no_layers : Snapshot.read (Snapshot.write ⟨#[]⟩).toUTF8 =
    .error (.invalidHeader "OV_GNA_PLUGIN_STATS 0") := by
  have hnames : (⟨#[]⟩ : Store).HasStoredNames := by
    intro layer role record hrecord
    cases hrecord
  have htext : Snapshot.textLines ⟨#[]⟩ = ["OV_GNA_PLUGIN_STATS 0"] := by rfl
  have hheader : Snapshot.layerCount "OV_GNA_PLUGIN_STATS 0" =
      .error (.invalidHeader "OV_GNA_PLUGIN_STATS 0") := by rfl
  unfold Snapshot.read
  rw [Snapshot.lines_write hnames, htext]
  simp [Snapshot.ofLines, Snapshot.decoded, hheader, bind, Except.bind]

/-- A session without layers writes a snapshot that is rejected, and a session for a layer whose name
takes two lines writes one that is not loaded with this name. -/
theorem start_not_loaded :
    (∃ store written, ((start [] "s").afterCalls []).finish {} = .ok (store, written) ∧
      Snapshot.load (written.read "s") = .error (.invalidHeader "OV_GNA_PLUGIN_STATS 0")) ∧
    ∃ store written, ((start ["a\nb"] "s").afterCalls []).finish {} = .ok (store, written) ∧
      ¬ ∃ again, Snapshot.load (written.read "s") = .ok again ∧
        ∀ layer, again.name layer = store.name layer := by
  have hempty := write_snapshot (Snapshot.write (start [] "s").store).toUTF8
  have hbroken := write_snapshot (Snapshot.write (start ["a\nb"] "s").store).toUTF8
  refine ⟨⟨_, _, finish_eq_ok.2 ⟨hempty, rfl⟩, ?_⟩, _, _, finish_eq_ok.2 ⟨hbroken, rfl⟩, ?_⟩
  · rw [Folder.read_of_write hempty]
    exact read_no_layers
  · rintro ⟨again, h, hnames⟩
    have hname : (start ["a\nb"] "s").store.name 0 = .ok "a\nb" := by rfl
    exact (names_of_load h).2 0 "a\nb" ((hnames 0).trans hname) (by decide)

end Session

end LayerQuant
