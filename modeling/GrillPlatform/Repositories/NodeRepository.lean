import GrillPlatform.Repositories.RunRepository

/-! `NodeRepository`: each method is one transaction. A run's rows are found by
`current_run_id`, which the schema does not declare unique. -/

namespace GrillPlatform

/-- `scalar_one` of SQLAlchemy. -/
def scalarOne {α : Type} : List α → Except Exc α
  | [] => .error .noResultFound
  | [a] => .ok a
  | _ => .error .multipleResultsFound

/-- `scalar_one_or_none` of SQLAlchemy. -/
def scalarOneOrNone {α : Type} : List α → Except Exc (Option α)
  | [] => .ok none
  | [a] => .ok (some a)
  | _ => .error .multipleResultsFound

namespace NodeRepository

def get (nodeId : NodeId) : Tx (Option Node) := fun db => .ok (db.nodes.get nodeId, db)

def getByRun (runId : RunId) : Tx (Option Node) := fun db =>
  match scalarOneOrNone (db.nodesOf runId) with
  | .error x => .error x
  | .ok node => .ok (node, db)

def create (node : Node) : Tx Node := fun db =>
  match db.nodes.insert node with
  | none => .error .integrityError
  | some nodes => .ok (node, { db with nodes := nodes })

/-- `session.merge` copies every column onto the row with the same key, or adds the row. -/
def save (node : Node) : Tx Node := fun db => .ok (node, { db with nodes := db.nodes.put node })

def createProvisioning (runId : RunId) (gpuType : GpuType) : Tx Node := fun db =>
  let node : Node :=
    match db.nodes.get (.ofRun runId) with
    | none => { id := .ofRun runId, gpuType, status := .provisioning, currentRunId := some runId }
    | some node => { node with
        gpuType, status := .provisioning, ipAddress := none, currentRunId := some runId }
  .ok (node, { db with nodes := db.nodes.put node })

/-- The row found by run is renamed to the instance id, its primary key. -/
def setBusy (runId : RunId) (instanceId : NodeId) (publicIp : String) : Tx Unit := fun db =>
  match scalarOne (db.nodesOf runId) with
  | .error x => .error x
  | .ok node =>
    match db.nodes.replace node.id
        { node with id := instanceId, ipAddress := some publicIp, status := .busy } with
    | none => .error .integrityError
    | some nodes => .ok ((), { db with nodes := nodes })

def ended (db : Db) (runId : RunId) : Bool :=
  db.status runId = some .done ∨ db.status runId = some .failed

def leaked (db : Db) : List RunId :=
  db.nodes.rows.filterMap fun node =>
    node.currentRunId.filter fun runId => node.status = .busy ∧ ended db runId

def getLeaked : Tx (List RunId) := fun db => .ok (leaked db, db)

def setDownByRun (runId : RunId) : Tx Unit := fun db =>
  match scalarOneOrNone (db.nodesOf runId) with
  | .error x => .error x
  | .ok none => .ok ((), db)
  | .ok (some node) => .ok ((), { db with nodes := db.nodes.put { node with status := .down } })

theorem createProvisioning_ok (runId : RunId) (gpuType : GpuType) (db : Db) :
    createProvisioning runId gpuType db =
      .ok (⟨.ofRun runId, gpuType, .provisioning, none, some runId⟩, { db with
        nodes := db.nodes.put ⟨.ofRun runId, gpuType, .provisioning, none, some runId⟩ }) := by
  unfold createProvisioning
  cases h : db.nodes.get (.ofRun runId) with
  | none => rfl
  | some node => simp [Table.key_of_get h]

theorem mem_leaked {db : Db} {r : RunId} :
    r ∈ leaked db ↔ (∃ n ∈ db.nodes.rows, n.currentRunId = some r ∧ n.status = .busy) ∧
      ended db r := by
  simp only [leaked, List.mem_filterMap, Option.filter_eq_some_iff, decide_eq_true_eq]
  constructor
  · rintro ⟨n, hn, hr, hb, he⟩; exact ⟨⟨n, hn, hr, hb⟩, he⟩
  · rintro ⟨⟨n, hn, hr, hb⟩, he⟩; exact ⟨n, hn, hr, hb, he⟩

theorem scalarOneOrNone_some {α : Type} {l : List α} {a : α}
    (h : scalarOneOrNone l = .ok (some a)) : l = [a] := by
  match l with
  | [] => cases h
  | [b] => cases h; rfl
  | _ :: _ :: _ => cases h

theorem scalarOne_ok {α : Type} {l : List α} {a : α} (h : scalarOne l = .ok a) : l = [a] := by
  match l with
  | [] => cases h
  | [b] => cases h; rfl
  | _ :: _ :: _ => cases h

end NodeRepository
end GrillPlatform
