import FractalD.Control.Messages
import FractalD.Core.Record

namespace FractalD.Daemon.Transactions

open FractalD.Control.Messages FractalD.Core.Record FractalD.Machine.CString
open FractalD.Machine.OrderedMap

inductive TransactionState
  | pending
  | done
  | failed
  deriving DecidableEq, Repr

def TransactionState.asStr : TransactionState → Str
  | .pending => "pending".toList
  | .done => "done".toList
  | .failed => "failed".toList

structure TransactionRecord where
  operation : Str
  name : Str
  state : TransactionState
  deriving DecidableEq, Repr

def maxTransactionRecords : Nat := 4096

abbrev Table := BTreeMap Nat TransactionRecord

/-- The table and the id to be tried next. -/
structure Ledger where
  table : Table
  next : Nat

def Ledger.new : Ledger := ⟨empty, 1⟩

/-- The id after another one; ids are non-zero 64 bit numbers. -/
def successor (id : Nat) : Nat := max ((id + 1) % 2 ^ 64) 1

/-- The first id from `next` on that is free, and the one after it, where one is
found within as many steps as are given. -/
def searchId (table : Table) : Nat → Nat → Nat × Nat
  | 0, next => (max next 1, successor next)
  | n + 1, next =>
    if table.contains (max next 1) then searchId table n (successor next)
    else (max next 1, successor next)

/-- Among more ids than the table has entries one is free. -/
def allocateTransactionId (t : Ledger) : Nat × Nat :=
  searchId t.table t.table.entries.length t.next

def settledId (table : Table) : Option Nat :=
  (table.entries.find? (·.2.state ≠ .pending)).map Prod.fst

def pruneWithin : Nat → Table → Table
  | 0, table => table
  | n + 1, table =>
    if table.entries.length ≤ maxTransactionRecords then table
    else
      match settledId table with
      | none => table
      | some id => pruneWithin n (table.erase id)

/-- Every step removes an entry, so that there are as many steps as entries at most. -/
def pruneTransactions (table : Table) : Table := pruneWithin table.entries.length table

def acceptedTransaction (t : Ledger) (operation name : Str) : Response × Ledger :=
  let (id, next) := allocateTransactionId t
  (.accepted id operation name,
    ⟨pruneTransactions (t.table.insert id ⟨operation, name, .pending⟩), next⟩)

/-- What a service has come to, as far as transactions are concerned. -/
structure Outcome where
  snapshot : Option ServiceSnapshot
  reloadState : Option Str

def startOutcome : ServiceState → TransactionState
  | .running | .active | .exited | .skipped => .done
  | .failed => .failed
  | .defined | .starting | .stopping | .backoff => .pending

def stopOutcome : ServiceState → TransactionState
  | .defined | .exited | .skipped | .failed => .done
  | .starting | .running | .active | .stopping | .backoff => .pending

def reloadOutcome (state : Option Str) : TransactionState :=
  if state = some "pending".toList then .pending
  else if state = some "done".toList then .done
  else .failed

def refresh (outcome : Str → Outcome) (t : TransactionRecord) : TransactionRecord :=
  if t.state ≠ .pending then t
  else
    match (outcome t.name).snapshot with
    | none => { t with state := .failed }
    | some snapshot =>
      { t with state :=
        if t.operation ∈ ["start".toList, "restart".toList, "isolate".toList] then
          startOutcome snapshot.state
        else if t.operation = "stop".toList then stopOutcome snapshot.state
        else if t.operation = "reload".toList then reloadOutcome (outcome t.name).reloadState
        else .failed }

def refreshTransactions (outcome : Str → Outcome) (table : Table) : Table :=
  table.map (refresh outcome)

def transactionResponse (table : Table) (id : Nat) : Response :=
  match table.get id with
  | some t => .transaction ⟨id, t.operation, t.name, t.state.asStr⟩
  | none => .transaction ⟨id, "unknown".toList, ['-'], "unknown".toList⟩

end FractalD.Daemon.Transactions
