import LayerQuant.Error

/-!
# Calibration sessions

A session collects the statistics of a float run, layer by layer, and leaves them as a snapshot when
it ends. It writes the snapshot also when it is abandoned, but then a fault is not reported.
-/

namespace LayerQuant

/-- A float run under observation. -/
structure Session where
  store : Store
  /-- Where the snapshot goes. -/
  path : String

namespace Session

/-- A session for layers with the given names. -/
def start (names : List String) (path : String) : Session :=
  { store := ⟨(names.map fun name =>
      ({ output := { name := trimName name } } : LayerStatistics)).toArray⟩, path }

/-- Applies a change to the store. -/
def change (session : Session) (apply : Store → Except StoreError Store) :
    Except Error Session :=
  match apply session.store with
  | .ok store => .ok { session with store }
  | .error error => .error (.store error)

/-- Renames a layer. -/
def setName (session : Session) (layer : Nat) (name : String) : Except Error Session :=
  session.change (·.setName layer name)

/-- Folds samples of one tensor. -/
def update (session : Session) (layer : Nat) (role : Role) (samples : List Single) :
    Except Error Session :=
  session.change (·.update layer role samples)

/-- Folds what a layer read and produced. -/
def afterLayer (session : Session) (layer : Nat) (inputs outputs : List Single) :
    Except Error Session := do
  let session ← session.update layer .input inputs
  session.update layer .output outputs

/-- Folds the parameters of a layer. -/
def recordParameters (session : Session) (layer : Nat) (weights : List Single)
    (biases : Option (List Single)) : Except Error Session := do
  let session ← session.update layer .weight weights
  match biases with
  | some biases => session.update layer .bias biases
  | none => pure session

/-- Ends the session: writes the snapshot and hands back the statistics. -/
def finish (session : Session) (folder : Folder) : Except Error (Store × Folder) :=
  match Snapshot.save session.store folder session.path with
  | .ok folder => .ok (session.store, folder)
  | .error error => .error (.snapshot error)

/-- Abandons the session: writes the snapshot if that is possible. -/
def abandon (session : Session) (folder : Folder) : Folder :=
  match Snapshot.save session.store folder session.path with
  | .ok folder => folder
  | .error _ => folder

end Session

end LayerQuant
