import Windmill.Schedule.Tick
import Windmill.Trigger.Routers

/-! # The trash

A deletion captures the rows of an item (`move_to_trash`), `restore_trash_item`
(`windmill-api/src/trash.rs`) inserts them again. The requests are those of
`windmill-api-schedule/src/lib.rs`, `windmill-trigger/src/handler.rs` and the handlers that delete
scripts, flows, apps, variables and resources. They are made one at a time, and one that fails
leaves everything as it is. -/

namespace Windmill.Trash.Items

open Schedule.Tick Trigger Trigger.Routes Trigger.Routers

abbrev Key := WorkspaceId × String

structure Schedule (D : Type) where
  enabled : Bool
  scriptPath : String
  cron : Cron
  pausedUntil : Option ℤ
  details : D

structure RootJob where
  trigger : Key
  runnablePath : String
  scheduledFor : ℤ
  running : Bool

inductive TriggerTable where
  | websocket
  | kafka
  | nats
  | postgres
  | mqtt
  | sqs
  | gcp
  | email
deriving DecidableEq

inductive Table where
  | script
  | draft
  | flow
  | flowVersion
  | flowNode
  | app
  | appVersion
  | variable
  | resource
  | trigger (table : TriggerTable)
deriving DecidableEq

structure Record (D : Type) where
  primaryKey : List String
  owner : Key
  data : D

inductive ItemKind where
  | script
  | flow
  | app
  | variable
  | resource
  | trigger (table : TriggerTable)

def ItemKind.table : ItemKind → Table
  | .script => .script
  | .flow => .flow
  | .app => .app
  | .variable => .variable
  | .resource => .resource
  | .trigger table => .trigger table

inductive TrashData (D : Type) where
  | rows (kind : ItemKind) (main : List (Record D)) (linked : List (Table × Record D))
  | schedule (row : Schedule D)
  | httpTrigger (row : Row D)

structure TrashItem (D : Type) where
  id : ℕ
  item : Key
  data : TrashData D

inductive Error where
  | requireAdmin (username : String)
  | badRequest (text : String)
  | notFound (text : String)
  | internal (text : String)
  | trigger (error : Routes.Error)

/-- The tables, the trash and the router cache. -/
structure Store (D : Type) where
  schedules : Key → Option (Schedule D)
  queue : List RootJob
  triggers : List (Row D)
  lastValue : ℕ
  cache : RoutersCache D
  tables : Table → List (Record D)
  trash : List (TrashItem D)
  nextId : ℕ

variable {D : Type}

variable (s : Store D)

def moveToTrash (item : Key) (data : TrashData D) : Store D :=
  { s with trash := s.trash ++ [⟨s.nextId, item, data⟩], nextId := s.nextId + 1 }

/-! ### Schedules -/

/-- `clear_schedule`: jobs that are running stay. -/
def clearSchedule (key : Key) : Store D :=
  { s with queue := s.queue.filter fun job => ¬(job.trigger = key ∧ job.running = false) }

def pushScheduledJob (now : ℤ) (key : Key) (schedule : Schedule D) : Store D :=
  let next := schedule.cron.next now none schedule.pausedUntil
  { s with
    schedules := Function.update s.schedules key (some { schedule with
      pausedUntil := pausedAfter now schedule.pausedUntil })
    queue :=
      if s.queue.any fun job =>
        job.trigger = key ∧ job.runnablePath = schedule.scriptPath ∧ job.scheduledFor = next
          then s.queue
      else s.queue ++ [⟨key, schedule.scriptPath, next, false⟩] }

/-- The clock, and why no job can be pushed: a license that is not valid, a script or flow that does
not exist. -/
structure Surroundings where
  now : ℤ
  obstacle : Option Error

variable (w : Surroundings)

def tryPush (key : Key) (schedule : Schedule D) : Except Error (Store D) :=
  match w.obstacle with
  | some error => .error error
  | none => .ok (pushScheduledJob s w.now key schedule)

def setSchedule (key : Key) (schedule : Option (Schedule D)) : Store D :=
  { s with schedules := Function.update s.schedules key schedule }

structure NewSchedule (D : Type) where
  enabled : Option Bool
  scriptPath : String
  cron : Cron
  pausedUntil : Option ℤ
  details : D

/-- Without `enabled` the schedule is disabled, but its first job is pushed. -/
def createSchedule (key : Key) (ns : NewSchedule D) : Except Error (Store D) :=
  match s.schedules key with
  | some _ => .error (.badRequest ("Schedule " ++ key.2 ++ " already exists"))
  | none =>
    let schedule := ⟨ns.enabled.getD false, ns.scriptPath, ns.cron, ns.pausedUntil, ns.details⟩
    let stored := setSchedule s key (some schedule)
    if ns.enabled.getD true then tryPush stored w key schedule else .ok stored

structure EditSchedule (D : Type) where
  cron : Cron
  pausedUntil : Option ℤ
  details : D

def updateSchedule (key : Key) (schedule : Schedule D) : Except Error (Store D) :=
  let stored := clearSchedule (setSchedule s key (some schedule)) key
  if schedule.enabled then tryPush stored w key schedule else .ok stored

def editSchedule (key : Key) (es : EditSchedule D) : Except Error (Store D) :=
  match s.schedules key with
  | none => .error (.internal ("updating schedule in " ++ String.ofList key.1.text))
  | some schedule =>
    updateSchedule s w key
      { schedule with cron := es.cron, pausedUntil := es.pausedUntil, details := es.details }

def setEnabled (key : Key) (enabled : Bool) : Except Error (Store D) :=
  match s.schedules key with
  | none => .error (.notFound ("Schedule not found at name " ++ key.2))
  | some schedule => updateSchedule s w key { schedule with enabled }

def deleteSchedule (key : Key) : Except Error (Store D) :=
  match s.schedules key with
  | none => .error (.notFound ("Schedule " ++ key.2 ++ " not found"))
  | some schedule => .ok (moveToTrash (setSchedule (clearSchedule s key) key none) key
      (.schedule schedule))

/-! ### HTTP triggers -/

def capturedTrigger (authed : Authed D) (key : Key) : Option (Row D) :=
  s.triggers.find? fun row => row.key = key ∧ authed.mayWrite row

def triggerRequest (cfg : Settings) (s : Store D) (request : Request D) : Except Error (Store D) :=
  match handle cfg s.triggers request with
  | .error error => .error (.trigger error)
  | .ok rows =>
    let s' := { s with triggers := rows, lastValue :=
      s.lastValue + (statements cfg request).length }
    match request with
    | .delete authed wId path =>
      match capturedTrigger s authed (wId, path) with
      | some row => .ok (moveToTrash s' (wId, path) (.httpTrigger row))
      | none => .ok s'
    | _ => .ok s'

def refreshRouters (cfg : Settings) (conflict : List Char → List Char → Bool) (s : Store D) :
    Store D :=
  if s.cache.version = 0 ∨ s.lastValue > s.cache.version then
    { s with cache := ⟨fun method => some (buildRouter cfg conflict s.triggers method),
      s.lastValue⟩ }
  else s

/-! ### Other items -/

/-- The rows of other tables that are deleted with the rows of an item: its drafts, the versions and
nodes of a flow, the versions of an app, the resource of a variable, the variables of a resource. -/
abbrev Links (D : Type) := ItemKind → List (Record D) → Table → Record D → Bool

def allTables : List Table :=
  [.script, .draft, .flow, .flowVersion, .flowNode, .app, .appVersion, .variable, .resource,
    .trigger .websocket,
    .trigger .kafka, .trigger .nats, .trigger .postgres, .trigger .mqtt, .trigger .sqs,
    .trigger .gcp, .trigger .email]

def mainRows (kind : ItemKind) (key : Key) : List (Record D) :=
  (s.tables kind.table).filter fun r => r.owner = key

def linkedRows (links : Links D) (s : Store D) (kind : ItemKind) (key : Key) :
    List (Table × Record D) :=
  allTables.flatMap fun table =>
    if table = kind.table then []
    else ((s.tables table).filter (links kind (mainRows s kind key) table)).map fun r => (table, r)

def deleteItem (links : Links D) (s : Store D) (kind : ItemKind) (key : Key) : Option (Store D) :=
  if mainRows s kind key = [] then none
  else
    let tables table := (s.tables table).filter fun r =>
      if table = kind.table then r.owner ≠ key else ¬links kind (mainRows s kind key) table r
    some (moveToTrash { s with tables } key
      (.rows kind (mainRows s kind key) (linkedRows links s kind key)))

/-! ### Restoring -/

def insertInto (tables : Table → List (Record D)) (table : Table) (r : Record D) :
    Table → List (Record D) :=
  Function.update tables table (tables table ++ [r])

def taken (tables : Table → List (Record D)) (table : Table) (r : Record D) : Bool :=
  (tables table).any fun r' => r'.primaryKey = r.primaryKey

def insertRows (table : Table) : List (Record D) → (Table → List (Record D)) → Except Error
    (Table → List (Record D))
  | [], tables => .ok tables
  | r :: rs, tables =>
    if taken tables table r then .error (.internal "duplicate key value violates unique constraint")
    else insertRows table rs (insertInto tables table r)

def insertMissing : List (Table × Record D) → (Table → List (Record D)) → Table → List (Record D)
  | [], tables => tables
  | (table, r) :: rs, tables =>
    if taken tables table r then insertMissing rs tables
      else insertMissing rs (insertInto tables table r)

def ItemKind.name : ItemKind → String
  | .script => "A script"
  | .flow => "A flow"
  | .app => "An app"
  | .variable => "A variable"
  | .resource => "A resource"
  | .trigger _ => "A trigger"

def alreadyExists (name path : String) : Error :=
  .badRequest (name ++ " already exists at path \x27" ++ path ++ "\x27")

/-- `restore_script`, `restore_flow`, `restore_app`, `restore_variable`, `restore_resource` and
`restore_trigger` for the triggers without routes -/
def restoreRows (item : Key) (kind : ItemKind) (main : List (Record D))
    (linked : List (Table × Record D)) : Except Error (Store D) :=
  if (s.tables kind.table).any fun r => r.owner = item then .error (alreadyExists kind.name item.2)
  else (insertRows kind.table main s.tables).map fun tables =>
    { s with tables := insertMissing linked tables }

def restoreSchedule (item : Key) (row : Schedule D) : Except Error (Store D) :=
  match s.schedules item with
  | some _ => .error (alreadyExists "A schedule" item.2)
  | none => .ok (setSchedule s item (some row))

def restoreTrigger (item : Key) (row : Row D) : Except Error (Store D) :=
  if s.triggers.any fun r => r.key = item then .error (alreadyExists "A trigger" item.2)
  else if row.key ∈ s.triggers.map Row.key
    then .error (.internal "duplicate key value violates unique constraint")
  else .ok { s with triggers := s.triggers ++ [row] }

def restoreData (item : Key) : TrashData D → Except Error (Store D)
  | .rows kind main linked => restoreRows s item kind main linked
  | .schedule row => restoreSchedule s item row
  | .httpTrigger row => restoreTrigger s item row

structure User where
  isAdmin : Bool
  username : String

def getTrashItem (wId : WorkspaceId) (id : ℕ) : Except Error (TrashItem D) :=
  match s.trash.find? fun item => item.item.1 = wId ∧ item.id = id with
  | some item => .ok item
  | none => .error (.notFound "Trash item not found")

/-- `restore_trash_item`: the rows come back, and the item goes. -/
def restoreTrashItem (authed : User) (wId : WorkspaceId) (id : ℕ) : Except Error (Store D) :=
  if authed.isAdmin = false then .error (.requireAdmin authed.username)
  else do
    let item ← getTrashItem s wId id
    let s' ← restoreData s item.item item.data
    .ok { s' with trash := s'.trash.filter fun other => other.id ≠ item.id }

/-! ### Runs -/

/-- A deletion, a restore or another request. -/
inductive Action (D : Type) where
  | createSchedule (w : Surroundings) (key : Key) (ns : NewSchedule D)
  | editSchedule (w : Surroundings) (key : Key) (es : EditSchedule D)
  | setEnabled (w : Surroundings) (key : Key) (enabled : Bool)
  | deleteSchedule (key : Key)
  | trigger (request : Request D)
  | refresh
  | change (tables : Table → List (Record D))
  | deleteItem (kind : ItemKind) (key : Key)
  | restore (authed : User) (wId : WorkspaceId) (id : ℕ)
  | discard (gone : TrashItem D → Bool)

def request (cfg : Settings) (conflict : List Char → List Char → Bool) (links : Links D)
    (s : Store D) : Action D → Option (Store D)
  | .createSchedule w key ns => (createSchedule s w key ns).toOption
  | .editSchedule w key es => (editSchedule s w key es).toOption
  | .setEnabled w key enabled => (setEnabled s w key enabled).toOption
  | .deleteSchedule key => (deleteSchedule s key).toOption
  | .trigger request => (triggerRequest cfg s request).toOption
  | .refresh => some (refreshRouters cfg conflict s)
  | .change tables =>
    if ∀ table ∈ allTables, ((tables table).map Record.primaryKey).Nodup then some { s with tables }
      else none
  | .deleteItem kind key => deleteItem links s kind key
  | .restore authed wId id => (restoreTrashItem s authed wId id).toOption
  | .discard gone => some { s with trash := s.trash.filter fun item => !gone item }

/-- One action. -/
def step (cfg : Settings) (conflict : List Char → List Char → Bool) (links : Links D) (s : Store D)
    (a : Action D) : Option (Store D) :=
  some ((request cfg conflict links s a).getD s)

end Windmill.Trash.Items
