import Mathlib.Algebra.GroupWithZero.Nat
import KeyedTables.Proofs.Output.ReadBack

/-!
This module contains what is counted while an output looks up rows: the scans that its counters
account for, and those that its connection has noted. Counters are handed to the output at any time,
and the ones that it goes by are the last ones that were complete. A scan is accounted for before it
can fail, and noted when it is opened.
-/

namespace KeyedTables

/-!
# Totals
-/

namespace Counters

variable {c : Counters} {name : String} {requests : List CounterRequest}

theorem totalOf_change (name n : String) (f : α → α) (totals : List (String × α)) :
    totalOf name (change n f totals)
      = if n = name then (totalOf name totals).map f else totalOf name totals := by
  have hnames : (fun e : String × α => e.1 == name)
      ∘ (fun e : String × α => if e.1 == n then (e.1, f e.2) else (e.1, e.2))
        = (·.1 == name) := by
    funext e
    dsimp only [Function.comp_apply]
    split <;> rfl
  unfold totalOf change
  rw [List.find?_map, hnames]
  cases hfind : totals.find? (·.1 == name) with
  | none => simp
  | some e =>
    have hname : e.1 = name := by simpa using List.find?_some hfind
    by_cases hn : n = name
    . simp [hname, hn]
    . simp [hname, hn, Ne.symm hn]

theorem long?_addLong (c : Counters) (n : String) (delta : Int64) (name : String) :
    (c.addLong n delta).long? name
      = if n = name then (c.long? name).map (· + delta) else c.long? name :=
  totalOf_change name n (· + delta) c.longs

theorem longs_foldl_add (h : ∀ e ∈ c.longs, e.2 = 0) :
    ∀ e ∈ (requests.foldl add c).longs, e.2 = 0 := by
  induction requests generalizing c with
  | nil => exact h
  | cons r requests ih =>
    apply ih
    unfold add
    cases r.kind with
    | double => exact h
    | long =>
      dsimp only [openTotal]
      split
      . exact h
      . rw [List.forall_mem_append]
        exact ⟨h, by simp⟩

/--
Counters that are made for requests start at zero.
-/
theorem long?_ofRequests {total : Int64} (h : (ofRequests requests).long? name = some total) :
    total = 0 := by
  obtain ⟨e, he, rfl⟩ := Option.map_eq_some_iff.1 h
  exact longs_foldl_add (c := {}) (by simp) e (List.mem_of_find?_eq_some he)

end Counters

namespace ScanTally

variable {c : Counters} {m : ScanTally} {counts : List Nat}

/--
A tally that has started with these counters and has accounted for scans for so many filter rows
each. It wraps around, and takes at most so many filter rows for a scan as its totals can hold.
-/
structure Accounts (c : Counters) (counts : List Nat) (m : ScanTally) : Prop where
  scans_eq : m.counters.long? scansName
    = (c.long? scansName).map (· + Int64.ofNat counts.length)
  filters_eq : m.counters.long? filtersName
    = (c.long? filtersName).map (· + Int64.ofNat (counts.map (min · (2 ^ 63 - 1))).sum)
  others_eq : ∀ name, name ≠ scansName → name ≠ filtersName →
    m.counters.long? name = c.long? name

theorem accounts_nil (c : Counters) : Accounts c [] ⟨c⟩ := by
  constructor <;> simp

theorem scansName_ne_filtersName : scansName ≠ filtersName := by
  decide

theorem Accounts.record (h : Accounts c counts m) (n : Nat) :
    Accounts c (counts ++ [n]) (m.recordScan n) := by
  have hlong : ∀ name, (m.recordScan n).counters.long? name
      = if filtersName = name then
          (if scansName = name then (m.counters.long? name).map (· + 1)
            else m.counters.long? name).map (· + Int64.ofNat (min n (2 ^ 63 - 1)))
        else if scansName = name then (m.counters.long? name).map (· + 1)
        else m.counters.long? name := by
    intro name
    rw [recordScan, Counters.long?_addLong, Counters.long?_addLong]
  have hne := scansName_ne_filtersName
  constructor
  case scans_eq =>
    rw [hlong, if_neg hne.symm, if_pos rfl, h.scans_eq, Option.map_map, List.length_append,
      List.length_singleton, Int64.ofNat_add]
    congr 1
    funext total
    exact Int64.add_assoc _ _ _
  case filters_eq =>
    rw [hlong, if_pos rfl, if_neg hne, h.filters_eq, Option.map_map, List.map_append,
      List.sum_append, Int64.ofNat_add]
    congr 1
    funext total
    simp [Int64.add_assoc]
  case others_eq =>
    intro name hscans hfilters
    rw [hlong, if_neg hfilters.symm, if_neg hscans.symm, h.others_eq name hscans hfilters]

theorem Accounts.recordAll (h : Accounts c counts m) (more : List Nat) :
    Accounts c (counts ++ more) (more.foldl recordScan m) := by
  induction more generalizing counts m with
  | nil => simpa using h
  | cons n more ih => simpa using ih (h.record n)

theorem ofCounters?_eq_some (h : ofCounters? c = some m) :
    m = ⟨c⟩ ∧ ∃ scans filters, c.long? scansName = some scans
      ∧ c.long? filtersName = some filters := by
  unfold ofCounters? at h
  split at h
  . next scans filters _ hscans hfilters _ =>
    exact ⟨(Option.some.inj h).symm, scans, filters, hscans, hfilters⟩
  . contradiction

/--
Counters that were made for requests have just the scans that they accounted for.
-/
theorem Accounts.totals_of_requests {requests : List CounterRequest} {start : ScanTally}
    (hstart : ofCounters? (.ofRequests requests) = some start)
    (h : Accounts (.ofRequests requests) counts m) :
    m.scans = Int64.ofNat counts.length
      ∧ ((∀ n ∈ counts, n < 2 ^ 63) → m.filters = Int64.ofNat counts.sum) := by
  obtain ⟨-, scans, filters, hscans, hfilters⟩ := ofCounters?_eq_some hstart
  have hzero := Counters.long?_ofRequests hscans
  have hzero' := Counters.long?_ofRequests hfilters
  unfold ScanTally.scans ScanTally.filters
  rw [h.scans_eq, h.filters_eq, hscans, hfilters, hzero, hzero']
  refine ⟨Int64.zero_add _, ?_⟩
  intro hlt
  have hcounts : counts.map (min · (2 ^ 63 - 1)) = counts := by
    conv => rhs; rw [← List.map_id' counts]
    apply List.map_congr_left
    intro n hn
    have := hlt n hn
    omega
  rw [hcounts]
  exact Int64.zero_add _

end ScanTally

/-!
# What a lookup does
-/

namespace Lookup

variable {l : Lookup} {filters : List Row} {t : TableHandle} {store : Store}
variable {connection : Connection} {schema : RowSchema} {cursor : Cursor} {r : ScanRequest}

theorem connection_openCursor (connection : Connection) (store : Store) (r : ScanRequest) :
    (connection.openCursor store r).2
      =
    match (connection.openCursor store r).1 with
    | .ok _ => { connection with requests := connection.requests ++ [r] }
    | .error _ => connection := by
  unfold Connection.openCursor
  cases connection.outage.openScan? with
  | some e => rfl
  | none => cases store.openCursor r <;> rfl

/--
What comes of a lookup: the answer, and the lookup and the connection after it.
-/
inductive Outcome (l : Lookup) (filters : List Row) (t : TableHandle) (store : Store)
    (connection : Connection) : Except TransferError (List Row) → Lookup → Connection → Prop where
  /-- There is nothing to look for. -/
  | idle (hfilters : filters = []) : Outcome l filters t store connection (.ok []) l connection
  /-- The filter rows cannot be asked for. -/
  | refused (hfilters : filters ≠ []) (e : TransferError) :
    Outcome l filters t store connection (.error e) (l.recordScan filters.length) connection
  /-- The table has no row schema, or no scan could be opened. -/
  | unopened (hfilters : filters ≠ []) (e : TransferError) :
    Outcome l filters t store connection (.error e)
      { l.recordScan filters.length with schemas := (l.schemas.schemaOf t).2 } connection
  /-- A scan was opened, noted and read. -/
  | opened (hfilters : filters ≠ []) {r : ScanRequest} {schema : RowSchema} {cursor : Cursor}
    (hrequest : l.request filters t = .ok r) (hschema : (l.schemas.schemaOf t).1 = .ok schema)
    (hcursor : (connection.openCursor store r).1 = .ok cursor) :
    Outcome l filters t store connection (readRows schema cursor.remaining.length cursor)
      { l.recordScan filters.length with schemas := (l.schemas.schemaOf t).2 }
      { connection with requests := connection.requests ++ [r] }

theorem run_outcome (l : Lookup) (filters : List Row) (t : TableHandle) (store : Store)
    (connection : Connection) :
    Outcome l filters t store connection (l.run filters t store connection).1
      (l.run filters t store connection).2.1 (l.run filters t store connection).2.2 := by
  unfold run
  split
  . next hfilters => exact .idle (List.isEmpty_iff.1 hfilters)
  . next hfilters =>
    have hfilters : filters ≠ [] := by simpa using hfilters
    dsimp only
    split
    . next e _ => exact .refused hfilters e
    . next r hrequest =>
      split
      . next e _ => exact .unopened hfilters e
      . next schema hschema =>
        rw [connection_openCursor]
        cases hcursor : (connection.openCursor store r).1 with
        | error e => exact .unopened hfilters (.store e)
        | ok cursor => exact .opened hfilters hrequest hschema hcursor

end Lookup

/-!
# Scans that nothing interrupts
-/

namespace Lookup

variable {l : Lookup} {filters : List Row} {t : TableHandle} {store : Store}
variable {connection : Connection} {schema : RowSchema} {cursor : Cursor} {r : ScanRequest}

theorem table_of_request (h : l.request filters t = .ok r) : r.table = t := by
  unfold request at h
  split at h
  . contradiction
  . split at h
    . contradiction
    . split at h
      . contradiction
      . rw [← Except.ok.inj h]
        rfl

/--
A scan that was opened on a sound store, of a table whose rows can be shown, is read to its end
unless its pages are cut off.
-/
theorem exists_readRows (hstore : store.Sound) (ht : store.openTable t.name = .ok t)
    (hpages : connection.outage.pages? = none) (hschema : t.schema.rowSchema = .ok schema)
    (htable : r.table = t) (hcursor : (connection.openCursor store r).1 = .ok cursor) :
    ∃ rows, readRows schema cursor.remaining.length cursor = .ok rows := by
  obtain ⟨rows, hfind⟩ := Store.find?_of_openTable ht
  unfold Connection.openCursor Store.openCursor Store.scan Store.lookup at hcursor
  rw [htable, hfind] at hcursor
  dsimp only at hcursor
  split at hcursor
  . contradiction
  . cases hconditions : Store.resolveConditions t.schema r.conditions with
    | error e => simp [hconditions] at hcursor
    | ok conditions =>
      have hfit : ∀ cells ∈ rows.toList.filter (Store.meets conditions),
          FitColumns t.schema.columns cells := by
        intro cells hcells
        obtain ⟨x, hx⟩ := (hstore t.name _ hfind).files_of_mem (List.mem_of_mem_filter hcells)
        exact hx.fitColumns
      simp only [hconditions, Except.ok.injEq] at hcursor
      have hsupported := TableSchema.isSupported_of_rowSchema hschema
      rw [← hcursor]
      exact (readRows_shows (Nat.le_refl _) hpages hfit hsupported hschema).imp fun _ h => h.1

end Lookup

/-!
# Calls
-/

/--
What is asked of an output between other work: to take counters, or to look up rows. A lookup comes
with the store and the outage at the time.
-/
inductive LookupCall where
  | receive (c : Counters)
  | existing (filters : List Row) (store : Store) (outage : Outage)

/--
The service after others have changed the store, and with other calls that fail.
-/
def Service.meanwhile (s : Service) (store : Store) (outage : Outage) : Service :=
  { s with store := store, connection := { s.connection with outage := outage } }

namespace LookupCall

variable {call : LookupCall} {calls : List LookupCall} {o : Output} {s : Service} {name : String}

def filters : LookupCall → List Row
  | .receive _ => []
  | .existing filters _ _ => filters

/--
The number of filter rows of a lookup that gets as far as the table of this name.
-/
def asked? (name : String) : LookupCall → Option Nat
  | .receive _ => none
  | .existing filters store outage =>
    if filters.isEmpty then
      none
    else
      match outage.openTable?, store.openTable name with
      | none, .ok _ => some filters.length
      | _, _ => none

/--
The answer, if the call has one, with the output and the service after the call.
-/
def run (call : LookupCall) (o : Output) (s : Service) :
    Option (Except TransferError (List Row)) × Output × Service :=
  match call with
  | .receive c => (none, o.receiveCounters c, s)
  | .existing filters store outage =>
    let (answer, o, s) := o.existing filters (s.meanwhile store outage)
    (some answer, o, s)

/--
Calls one after the other, each with its answer.
-/
def runAll (o : Output) (s : Service) : List LookupCall →
    List (LookupCall × Option (Except TransferError (List Row))) × Output × Service
  | [] => ([], o, s)
  | call :: calls =>
    let (answer?, o, s) := call.run o s
    let (answers, o, s) := runAll o s calls
    ((call, answer?) :: answers, o, s)

/--
The tally of an output on the table of this name after a call.
-/
def tally? (name : String) (m? : Option ScanTally) : LookupCall → Option ScanTally
  | .receive c => (ScanTally.ofCounters? c).or m?
  | .existing filters store outage =>
    match (existing filters store outage).asked? name with
    | some n => m?.map (·.recordScan n)
    | none => m?

/--
A lookup that gets as far as the table is done there.
-/
theorem run_of_asked {filters : List Row} {store : Store} {outage : Outage} {n : Nat}
    (h : (existing filters store outage).asked? o.settings.tableName = some n) :
    ∃ t answer l connection, store.openTable o.settings.tableName = .ok t ∧ n = filters.length
      ∧ o.lookup.Outcome filters t store { s.connection with outage := outage } answer l connection
      ∧ (existing filters store outage).run o s
        = (some answer, { o with lookup := l },
            { s with store := store, connection := connection }) := by
  dsimp only [asked?] at h
  split at h
  . contradiction
  . next hfilters =>
    split at h
    . next t hopens ht =>
      have htable : Output.openTable (s.meanwhile store outage) o.settings.tableName = .ok t := by
        simp [Output.openTable, Connection.openTable, Service.meanwhile, hopens, ht]
      refine ⟨t, _, _, _, ht, (Option.some.inj h).symm, o.lookup.run_outcome filters t store _, ?_⟩
      unfold run Output.existing
      simp only [htable, if_neg hfilters]
      rfl
    . contradiction

/--
A lookup that does not get as far as the table leaves everything as it is.
-/
theorem run_of_not_asked {filters : List Row} {store : Store} {outage : Outage}
    (h : (existing filters store outage).asked? o.settings.tableName = none) :
    ∃ answer, (filters = [] ∨ ∃ e, answer = .error e)
      ∧ (existing filters store outage).run o s
        = (some answer, o, s.meanwhile store outage) := by
  unfold run Output.existing
  by_cases hfilters : filters = []
  . exact ⟨.ok [], .inl hfilters, by simp [hfilters]⟩
  . obtain ⟨e, he⟩ : ∃ e, Output.openTable (s.meanwhile store outage) o.settings.tableName
        = .error e := by
      unfold Output.openTable Connection.openTable Service.meanwhile
      cases hopens : outage.openTable? with
      | some e => exact ⟨.store e, rfl⟩
      | none =>
        cases ht : store.openTable o.settings.tableName with
        | error e => exact ⟨.store e, by simp⟩
        | ok t => simp [asked?, hfilters, hopens, ht] at h
    exact ⟨.error e, .inr ⟨e, rfl⟩, by simp [hfilters, he]⟩

/-!
# The tally
-/

theorem tally?_receiveCounters (o : Output) (c : Counters) :
    (o.receiveCounters c).lookup.tally? = (ScanTally.ofCounters? c).or o.lookup.tally? := by
  unfold Output.receiveCounters
  cases ScanTally.ofCounters? c <;> rfl

theorem settings_receiveCounters (o : Output) (c : Counters) :
    (o.receiveCounters c).settings = o.settings := by
  unfold Output.receiveCounters
  cases ScanTally.ofCounters? c <;> rfl

theorem tally?_of_outcome {l l' : Lookup} {filters : List Row} {t : TableHandle} {store : Store}
    {connection connection' : Connection} {answer : Except TransferError (List Row)}
    (hfilters : filters ≠ [])
    (h : l.Outcome filters t store connection answer l' connection') :
    l'.tally? = l.tally?.map (·.recordScan filters.length) := by
  cases h with
  | idle hnone => exact absurd hnone hfilters
  | _ => rfl

theorem tally?_run (call : LookupCall) (o : Output) (s : Service) :
    (call.run o s).2.1.settings = o.settings
      ∧ (call.run o s).2.1.lookup.tally? = call.tally? o.settings.tableName o.lookup.tally? := by
  cases call with
  | receive c => exact ⟨settings_receiveCounters o c, tally?_receiveCounters o c⟩
  | existing filters store outage =>
    dsimp only [tally?]
    cases hasked : (existing filters store outage).asked? o.settings.tableName with
    | none =>
      obtain ⟨answer, -, hrun⟩ := run_of_not_asked (s := s) hasked
      rw [hrun]
      exact ⟨rfl, rfl⟩
    | some n =>
      obtain ⟨t, answer, l, connection, -, rfl, houtcome, hrun⟩ := run_of_asked (s := s) hasked
      have hfilters : filters ≠ [] := by
        rintro rfl
        contradiction
      rw [hrun]
      exact ⟨rfl, tally?_of_outcome hfilters houtcome⟩

theorem tally?_runAll (calls : List LookupCall) (o : Output) (s : Service) :
    (runAll o s calls).2.1.lookup.tally?
      = calls.foldl (fun m? call => call.tally? o.settings.tableName m?) o.lookup.tally? := by
  induction calls generalizing o s with
  | nil => rfl
  | cons call calls ih =>
    obtain ⟨hsettings, htally⟩ := tally?_run call o s
    rw [runAll, List.foldl_cons]
    dsimp only
    rw [ih, hsettings, htally]

/--
While no complete counters are taken, the tally goes on accounting for the lookups.
-/
theorem foldl_tally?_of_incomplete {m? : Option ScanTally}
    (h : ∀ c, receive c ∈ calls → ScanTally.ofCounters? c = none) :
    calls.foldl (fun m? call => call.tally? name m?) m?
      = m?.map fun m => (calls.filterMap (asked? name)).foldl ScanTally.recordScan m := by
  induction calls generalizing m? with
  | nil => simp
  | cons call calls ih =>
    rw [List.foldl_cons, ih fun c hc => h c (List.mem_cons_of_mem call hc), List.filterMap_cons]
    cases call with
    | receive c => simp [tally?, asked?, h c List.mem_cons_self]
    | existing filters store outage =>
      dsimp only [tally?]
      cases (existing filters store outage).asked? name with
      | none => rfl
      | some n =>
        dsimp only
        rw [Option.map_map]
        rfl

theorem isSome_tally? (call : LookupCall) (name : String) (m? : Option ScanTally) :
    (call.tally? name m?).isSome = true
      ↔ m?.isSome = true ∨ ∃ c, call = .receive c ∧ ScanTally.ofCounters? c ≠ none := by
  cases call with
  | receive c => cases hc : ScanTally.ofCounters? c <;> simp [tally?, hc]
  | existing filters store outage =>
    dsimp only [tally?]
    cases (existing filters store outage).asked? name <;> simp

theorem isSome_foldl_tally? (calls : List LookupCall) (name : String) (m? : Option ScanTally) :
    (calls.foldl (fun m? call => call.tally? name m?) m?).isSome = true
      ↔ m?.isSome = true ∨ ∃ c, receive c ∈ calls ∧ ScanTally.ofCounters? c ≠ none := by
  induction calls generalizing m? with
  | nil => simp
  | cons call calls ih =>
    rw [List.foldl_cons, ih, isSome_tally?]
    simp only [List.mem_cons]
    grind

/-!
# Counters that end the account
-/

def received? : LookupCall → Option Counters
  | .receive c => some c
  | .existing _ _ _ => none

def lastReceived? (calls : List LookupCall) : Option Counters :=
  (calls.filterMap received?).getLast?

/--
The tally after a call, if counters that are not complete left the output without one.
-/
def strictTally? (name : String) (m? : Option ScanTally) : LookupCall → Option ScanTally
  | .receive c => ScanTally.ofCounters? c
  | .existing filters store outage => (existing filters store outage).tally? name m?

theorem isSome_foldl_strictTally? (calls : List LookupCall) (name : String) :
    (calls.foldl (strictTally? name) none).isSome = true
      ↔ ∃ d, lastReceived? calls = some d ∧ ScanTally.ofCounters? d ≠ none := by
  induction calls using List.reverseRecOn with
  | nil => simp [lastReceived?]
  | append_singleton calls call ih =>
    rw [List.foldl_append, List.foldl_cons, List.foldl_nil]
    unfold lastReceived? at *
    rw [List.filterMap_append]
    cases call with
    | receive c => simp [strictTally?, received?, Option.isSome_iff_ne_none]
    | existing filters store outage =>
      have hlast : [existing filters store outage].filterMap received? = [] := rfl
      rw [hlast, List.append_nil, ← ih, strictTally?, isSome_tally?]
      simp

/--
As long as there is a tally under the strict rule, it is the one that there is.
-/
theorem foldl_tally?_of_strict {m : ScanTally}
    (h : calls.foldl (strictTally? name) none = some m) :
    calls.foldl (fun m? call => call.tally? name m?) none = some m := by
  induction calls using List.reverseRecOn generalizing m with
  | nil => contradiction
  | append_singleton calls call ih =>
    rw [List.foldl_append, List.foldl_cons, List.foldl_nil] at *
    cases call with
    | receive c =>
      dsimp only [strictTally?] at h
      dsimp only [tally?]
      rw [h, Option.some_or]
    | existing filters store outage =>
      dsimp only [strictTally?] at h
      cases hstrict : calls.foldl (strictTally? name) none with
      | none =>
        have hsome := (isSome_tally? (existing filters store outage) name none).1
        rw [← hstrict, h] at hsome
        simp [hstrict] at hsome
      | some n => rwa [ih hstrict, ← hstrict]

/--
The output has the tally of the strict rule unless the last counters were not complete, and others
before them were.
-/
theorem foldl_tally?_eq_strict_iff (calls : List LookupCall) (name : String) :
    calls.foldl (fun m? call => call.tally? name m?) none = calls.foldl (strictTally? name) none
      ↔ ∀ d, lastReceived? calls = some d → ScanTally.ofCounters? d = none →
        ∀ c, receive c ∈ calls → ScanTally.ofCounters? c = none := by
  have hstrict := isSome_foldl_strictTally? calls name
  have htally := isSome_foldl_tally? calls name none
  cases hm : calls.foldl (strictTally? name) none with
  | some m =>
    obtain ⟨d, hlast, hcomplete⟩ := hstrict.1 (by rw [hm]; rfl)
    rw [foldl_tally?_of_strict hm]
    refine iff_of_true rfl ?_
    intro d' hlast' hincomplete
    rw [hlast, Option.some.injEq] at hlast'
    rw [hlast'] at hcomplete
    contradiction
  | none =>
    have hnone : ¬ ∃ d, lastReceived? calls = some d ∧ ScanTally.ofCounters? d ≠ none := by
      rw [← hstrict, hm]
      exact Bool.false_ne_true
    rw [← Option.not_isSome_iff_eq_none, htally]
    constructor
    . intro hnever d _ _ c hc
      by_contra hcomplete
      exact hnever (.inr ⟨c, hc, hcomplete⟩)
    . rintro h (hfalse | ⟨c, hc, hcomplete⟩)
      . contradiction
      . have hreceived : c ∈ calls.filterMap received? := List.mem_filterMap.2 ⟨_, hc, rfl⟩
        cases hlast : lastReceived? calls with
        | none =>
          rw [List.getLast?_eq_none_iff.1 hlast] at hreceived
          contradiction
        | some d =>
          have hincomplete : ScanTally.ofCounters? d = none := by
            by_contra hd
            exact hnone ⟨d, hlast, hd⟩
          exact hcomplete (h d hlast hincomplete c hc)


/-!
# Noted scans
-/

/--
A lookup that had filter rows and returned rows.
-/
def succeeds : LookupCall × Option (Except TransferError (List Row)) → Bool
  | (call, some (.ok _)) => !call.filters.isEmpty
  | _ => false

/--
What the connection may note for a call with this answer.
-/
structure Notes (p : LookupCall × Option (Except TransferError (List Row)))
    (noted : List ScanRequest) : Prop where
  length_le : noted.length ≤ 1
  of_succeeds : succeeds p = true → noted.length = 1
  of_idle : p.1.filters = [] → noted = []

/--
The store is one that calls can lead to, it has this table, and no pages are cut off.
-/
def Undisturbed (t : TableHandle) : LookupCall → Prop
  | .receive _ => True
  | .existing _ store outage =>
    store.Reachable ∧ store.openTable t.name = .ok t ∧ outage.pages? = none

theorem notes_nil {p : LookupCall × Option (Except TransferError (List Row))}
    (h : succeeds p = false) : Notes p [] :=
  ⟨Nat.zero_le 1, by simp [h], fun _ => rfl⟩

theorem requests_run (call : LookupCall) (o : Output) (s : Service) :
    ∃ noted, (call.run o s).2.2.connection.requests = s.connection.requests ++ noted
      ∧ Notes (call, (call.run o s).1) noted
      ∧ ∀ t : TableHandle, o.settings.tableName = t.name → o.lookup.schemas.AgreesOn t →
        call.Undisturbed t → noted.length = (succeeds (call, (call.run o s).1)).toNat := by
  cases call with
  | receive c => exact ⟨[], (List.append_nil _).symm, notes_nil rfl, fun _ _ _ _ => rfl⟩
  | existing filters store outage =>
    cases hasked : (existing filters store outage).asked? o.settings.tableName with
    | none =>
      obtain ⟨answer, hanswer, hrun⟩ := run_of_not_asked (s := s) hasked
      have hfails : succeeds (existing filters store outage, some answer) = false := by
        rcases hanswer with hfilters | ⟨e, rfl⟩
        . cases answer <;> simp [succeeds, LookupCall.filters, hfilters]
        . rfl
      rw [hrun, hfails]
      exact ⟨[], (List.append_nil _).symm, notes_nil hfails, fun _ _ _ _ => rfl⟩
    | some n =>
      obtain ⟨u, answer, l, connection, hu, -, houtcome, hrun⟩ := run_of_asked (s := s) hasked
      rw [hrun]
      cases houtcome with
      | idle hfilters =>
        have hfails : succeeds (existing filters store outage, some (.ok [])) = false := by
          simp [succeeds, LookupCall.filters, hfilters]
        rw [hfails]
        exact ⟨[], (List.append_nil _).symm, notes_nil hfails, fun _ _ _ _ => rfl⟩
      | refused _ e => exact ⟨[], (List.append_nil _).symm, notes_nil rfl, fun _ _ _ _ => rfl⟩
      | unopened _ e => exact ⟨[], (List.append_nil _).symm, notes_nil rfl, fun _ _ _ _ => rfl⟩
      | @opened hfilters r _ _ hrequest hschema hcursor =>
        refine ⟨[r], rfl, ⟨Nat.le_refl 1, fun _ => rfl, fun hnone => absurd hnone hfilters⟩, ?_⟩
        intro t hname hknown hundisturbed
        obtain ⟨hstore, ht, hpages⟩ := hundisturbed
        rw [hname, ht, Except.ok.injEq] at hu
        rw [← hu] at hrequest hschema
        obtain ⟨rows, hread⟩ := Lookup.exists_readRows hstore.sound ht hpages
          (hknown.answer_eq.symm.trans hschema) (Lookup.table_of_request hrequest) hcursor
        have hnonempty : filters.isEmpty = false := by simpa using hfilters
        rw [hread]
        simp [succeeds, LookupCall.filters, hnonempty]

theorem requests_runAll (calls : List LookupCall) (o : Output) (s : Service) :
    ∃ noted, (runAll o s calls).2.2.connection.requests
        = s.connection.requests ++ noted.flatten
      ∧ List.Forall₂ Notes (runAll o s calls).1 noted := by
  induction calls generalizing o s with
  | nil => exact ⟨[], (List.append_nil _).symm, .nil⟩
  | cons call calls ih =>
    obtain ⟨first, hfirst, hnotes, -⟩ := requests_run call o s
    obtain ⟨rest, hrest, hall⟩ := ih (call.run o s).2.1 (call.run o s).2.2
    refine ⟨first :: rest, ?_, .cons hnotes hall⟩
    rw [List.flatten_cons, ← List.append_assoc, ← hfirst, ← hrest]
    rfl

theorem agreesOn_run {t : TableHandle} (hname : o.settings.tableName = t.name)
    (hknown : o.lookup.schemas.AgreesOn t) (h : call.Undisturbed t) (s : Service) :
    (call.run o s).2.1.lookup.schemas.AgreesOn t := by
  cases call with
  | receive c =>
    have hschemas : (o.receiveCounters c).lookup.schemas = o.lookup.schemas := by
      unfold Output.receiveCounters
      cases ScanTally.ofCounters? c <;> rfl
    exact hschemas ▸ hknown
  | existing filters store outage =>
    cases hasked : (existing filters store outage).asked? o.settings.tableName with
    | none =>
      obtain ⟨answer, -, hrun⟩ := run_of_not_asked (s := s) hasked
      rwa [hrun]
    | some n =>
      obtain ⟨u, answer, l, connection, hu, -, houtcome, hrun⟩ := run_of_asked (s := s) hasked
      have heq : t = u := by simpa [hname, h.2.1] using hu
      rw [hrun]
      cases houtcome with
      | idle | refused => exact hknown
      | unopened | opened => exact heq ▸ hknown.schemaOf fun _ => rfl

theorem length_requests_runAll {t : TableHandle} (hname : o.settings.tableName = t.name)
    (hknown : o.lookup.schemas.AgreesOn t) (h : ∀ call ∈ calls, call.Undisturbed t) (s : Service) :
    (runAll o s calls).2.2.connection.requests.length
      = s.connection.requests.length + (runAll o s calls).1.countP succeeds := by
  induction calls generalizing o s with
  | nil => rfl
  | cons call calls ih =>
    rw [List.forall_mem_cons] at h
    obtain ⟨noted, hnoted, -, hlength⟩ := requests_run call o s
    have hname' : (call.run o s).2.1.settings.tableName = t.name := by
      rw [(tally?_run call o s).1, hname]
    have hrest := ih hname' (agreesOn_run hname hknown h.1 s) h.2 (call.run o s).2.2
    rw [hnoted, List.length_append, hlength t hname hknown h.1] at hrest
    rw [runAll]
    dsimp only
    rw [hrest, List.countP_cons, Nat.add_assoc, Nat.add_comm (Bool.toNat _)]
    cases succeeds (call, (call.run o s).1) <;> rfl

/--
An output goes by the last counters that were complete, which account since then for every lookup
that got as far as its table, whatever came of it, and for the number of its filter rows. Counters
that are not complete do not end the account: the output has no tally only as long as none were
complete, so that it has the one of the strict rule unless complete counters were followed by
others, the last of which were not. The connection notes one scan for each lookup that had filter
rows and returned rows, none for one without filter rows, and, if no pages are cut off, none for one
that failed.
-/
theorem runAll_accounts (o : Output) (s : Service) (calls : List LookupCall) :
    (∀ before c since, calls = before ++ .receive c :: since →
      ScanTally.ofCounters? c ≠ none →
      (∀ d, .receive d ∈ since → ScanTally.ofCounters? d = none) →
        ∃ m, (runAll o s calls).2.1.lookup.tally? = some m
          ∧ m.Accounts c (since.filterMap (asked? o.settings.tableName))
          ∧ ∀ requests, c = .ofRequests requests →
            m.scans = Int64.ofNat (since.filterMap (asked? o.settings.tableName)).length
            ∧ ((∀ n ∈ since.filterMap (asked? o.settings.tableName), n < 2 ^ 63) →
                m.filters = Int64.ofNat (since.filterMap (asked? o.settings.tableName)).sum))
    ∧ (o.lookup.tally? = none →
      ((runAll o s calls).2.1.lookup.tally? = none
        ↔ ∀ c, .receive c ∈ calls → ScanTally.ofCounters? c = none)
      ∧ ((runAll o s calls).2.1.lookup.tally?
          = calls.foldl (strictTally? o.settings.tableName) none
        ↔ ∀ d, lastReceived? calls = some d → ScanTally.ofCounters? d = none →
            ∀ c, .receive c ∈ calls → ScanTally.ofCounters? c = none))
    ∧ (∃ noted, (runAll o s calls).2.2.connection.requests
          = s.connection.requests ++ noted.flatten
        ∧ List.Forall₂ Notes (runAll o s calls).1 noted)
    ∧ ∀ t : TableHandle, o.settings.tableName = t.name → o.lookup.schemas.AgreesOn t →
      (∀ call ∈ calls, call.Undisturbed t) →
        (runAll o s calls).2.2.connection.requests.length
          = s.connection.requests.length + (runAll o s calls).1.countP succeeds := by
  refine ⟨?_, ?_, requests_runAll calls o s, ?_⟩
  . rintro before c since rfl hcomplete hincomplete
    obtain ⟨start, hstart⟩ := Option.ne_none_iff_exists'.1 hcomplete
    have haccounts : ScanTally.Accounts c (since.filterMap (asked? o.settings.tableName))
        ((since.filterMap (asked? o.settings.tableName)).foldl ScanTally.recordScan ⟨c⟩) := by
      simpa using (ScanTally.accounts_nil c).recordAll
        (since.filterMap (asked? o.settings.tableName))
    refine ⟨_, ?_, haccounts, ?_⟩
    . rw [tally?_runAll, List.foldl_append, List.foldl_cons,
        foldl_tally?_of_incomplete hincomplete]
      dsimp only [tally?]
      rw [hstart, (ScanTally.ofCounters?_eq_some hstart).1]
      rfl
    . rintro requests rfl
      exact haccounts.totals_of_requests hstart
  . intro hnone
    have hsome := isSome_foldl_tally? calls o.settings.tableName none
    rw [tally?_runAll calls o s, hnone]
    refine ⟨?_, foldl_tally?_eq_strict_iff calls o.settings.tableName⟩
    rw [← Option.not_isSome_iff_eq_none, hsome]
    simp
  . intro t hname hknown hundisturbed
    exact length_requests_runAll hname hknown hundisturbed s

/--
Counters among which only the number of scans is found.
-/
def scansOnly : Counters :=
  .ofRequests [⟨ScanTally.scansName, .long⟩]

/--
One lookup finds rows, one has no filter rows, and one asks for a column that the table does not
have. Counters that are not complete come in between.
-/
def lookupsOfPlaces : List LookupCall :=
  [.existing [Lookup.placeRow (some "a") 1, Lookup.placeRow none 2] Lookup.threePlacesStore {},
    .existing [] Lookup.threePlacesStore {},
    .receive scansOnly,
    .existing [.ofFields [("colour", .string, .null)]] Lookup.threePlacesStore {}]

theorem runAll_accounts_lookupsOfPlaces :
    ∃ m, (runAll .placesOutput {} (.receive (.ofRequests ScanTally.requests) :: lookupsOfPlaces)
        ).2.1.lookup.tally? = some m
      ∧ m.scans = 2 ∧ m.filters = 3
      ∧ (runAll .placesOutput {} (.receive (.ofRequests ScanTally.requests) :: lookupsOfPlaces)
        ).2.2.connection.requests.length = 1 := by
  obtain ⟨htally, -, -, hrequests⟩ := runAll_accounts .placesOutput {}
    (.receive (.ofRequests ScanTally.requests) :: lookupsOfPlaces)
  have hasked : lookupsOfPlaces.filterMap (asked? Output.placesOutput.settings.tableName)
      = [2, 1] := rfl
  have hincomplete : ∀ d, .receive d ∈ lookupsOfPlaces → ScanTally.ofCounters? d = none := by
    intro d hd
    have heq : d = scansOnly := by simpa [lookupsOfPlaces] using hd
    rw [heq]
    rfl
  obtain ⟨m, hm, -, htotals⟩ := htally [] (.ofRequests ScanTally.requests) lookupsOfPlaces rfl
    (by decide) hincomplete
  obtain ⟨hscans, hfilters⟩ := htotals _ rfl
  rw [hasked] at hscans hfilters
  refine ⟨m, hm, hscans, hfilters (by decide), ?_⟩
  have hundisturbed : ∀ call ∈ .receive (.ofRequests ScanTally.requests) :: lookupsOfPlaces,
      call.Undisturbed placesTable := by
    have hfound : Lookup.threePlacesStore.Reachable
        ∧ Lookup.threePlacesStore.openTable placesTable.name = .ok placesTable
        ∧ (none : Option (Nat × StoreError)) = none :=
      ⟨Lookup.threePlacesStore_reachable, rfl, rfl⟩
    simp [lookupsOfPlaces, Undisturbed, hfound]
  have hknown : Output.placesOutput.lookup.schemas.AgreesOn placesTable := by
    intro schema hschema
    contradiction
  rw [hrequests placesTable rfl hknown hundisturbed]
  rfl

/--
Counters that are not complete do not end the account, which goes on in those from before.
-/
theorem goes_on_with_earlier_counters :
    ScanTally.ofCounters? scansOnly = none
      ∧ (runAll .placesOutput {}
          [.receive (.ofRequests ScanTally.requests),
            .existing [Lookup.placeRow (some "a") 1] Lookup.threePlacesStore {},
            .receive scansOnly,
            .existing [Lookup.placeRow (some "a") 1] Lookup.threePlacesStore {}]
          ).2.1.lookup.tally?.map (fun m => (m.scans, m.filters)) = some (2, 2) := by
  exact ⟨rfl, rfl⟩

end LookupCall

end KeyedTables
