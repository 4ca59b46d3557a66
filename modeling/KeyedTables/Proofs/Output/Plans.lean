import KeyedTables.Proofs.Output.ReadBack

/-!
This module contains what becomes of a plan, whose datasets are written one after the other until one
fails. A dataset that comes to no writes leaves nothing behind, and one of which a write was turned
down leaves all its writes behind. Nothing is left of what comes after it.
-/

namespace KeyedTables

/-!
# The writes of datasets
-/

theorem TransferError.code_store_ne (e : StoreError) :
    (TransferError.store e).code ≠ .remoteApply := by
  cases e <;> simp [code]

theorem Value.code_ne_of_toCell {v : Value} {c : Column} {target : Target} {e : TransferError}
    (h : v.toCell c target = .error e) : e.code ≠ .remoteApply := by
  unfold toCell at h
  split at h
  case h_12 =>
    split at h
    . contradiction
    . cases h
      simp [TransferError.code]
  all_goals
    cases h
    try simp [TransferError.code]

theorem Draft.code_ne_of_put {d : Draft} {c : Column} {v : Value} {target : Target}
    {e : TransferError} (h : d.put c v target = .error e) : e.code ≠ .remoteApply := by
  unfold put at h
  split at h
  . next hcell =>
    cases h
    exact Value.code_ne_of_toCell hcell
  . contradiction
  . split at h
    . contradiction
    . cases h
      exact TransferError.code_store_ne _

namespace Dataset

variable {t : TableHandle} {e : TransferError}

theorem code_ne_of_columnsOf {fields : List Field} (h : columnsOf t fields = .error e) :
    e.code ≠ .remoteApply := by
  induction fields with
  | nil => contradiction
  | cons f fields ih =>
    unfold columnsOf at h
    split at h
    . cases h
      simp [TransferError.code]
    . split at h
      . next hrest =>
        cases h
        exact ih hrest
      . contradiction

theorem code_ne_of_putAll {target : Target} {d : Draft} {entries : List (Column × Value)}
    (h : putAll target d entries = .error e) : e.code ≠ .remoteApply := by
  induction entries generalizing d with
  | nil => contradiction
  | cons entry entries ih =>
    unfold putAll at h
    split at h
    . next hput =>
      cases h
      exact Draft.code_ne_of_put hput
    . exact ih h

theorem code_ne_of_rowWrites {kind : WriteKind} {columns : List Column} {rows : List Row}
    (h : rowWrites kind t columns rows = .error e) : e.code ≠ .remoteApply := by
  induction rows with
  | nil => contradiction
  | cons r rows ih =>
    unfold rowWrites at h
    split at h
    . next hput =>
      cases h
      exact code_ne_of_putAll hput
    . split at h
      . next hrest =>
        cases h
        exact ih hrest
      . contradiction

theorem code_ne_of_writes {d : Dataset} {kind : WriteKind} (h : d.writes kind t = .error e) :
    e.code ≠ .remoteApply := by
  unfold writes at h
  split at h
  . next hcolumns =>
    cases h
    exact code_ne_of_columnsOf hcolumns
  . exact code_ne_of_rowWrites h

theorem length_of_rowWrites {kind : WriteKind} {columns : List Column} {rows : List Row}
    {ws : List Write} (h : rowWrites kind t columns rows = .ok ws) : ws.length = rows.length := by
  induction rows generalizing ws with
  | nil =>
    cases h
    rfl
  | cons r rows ih =>
    unfold rowWrites at h
    split at h
    . contradiction
    . split at h
      . contradiction
      . next hrest =>
        cases h
        rw [List.length_cons, List.length_cons, ih hrest]

theorem length_of_writes {d : Dataset} {kind : WriteKind} {ws : List Write}
    (h : d.writes kind t = .ok ws) : ws.length = d.rows.length := by
  unfold writes at h
  split at h
  . contradiction
  . exact length_of_rowWrites h

theorem length_rows_retainFields (d : Dataset) (keep : List String) :
    (d.retainFields keep).rows.length = d.rows.length := by
  unfold retainFields
  dsimp only
  split
  . rfl
  . rw [List.length_map]

end Dataset

namespace Output

/--
The writes that a dataset of a plan comes to, for the tables of a store.
-/
def plannedWrites (o : Output) (store : Store) (p : Intent × Dataset) :
    Except TransferError (List Write) :=
  match p.1.writeKind with
  | .error _ => .error (.unsupportedIntent (p.1.name ++ " (bulk)"))
  | .ok kind =>
    match store.openTable o.settings.tableName with
    | .error e => .error (.store e)
    | .ok t =>
      let d := if o.settings.ignoreMissingColumns then p.2.retainFields t.schema.names else p.2
      d.writes kind t

variable {o : Output} {keep? : Option (List String)} {store : Store} {p : Intent × Dataset}
variable {e : TransferError}

theorem plannedWrites_appliedAll (store : Store) (ws : List Write) :
    o.plannedWrites (store.appliedAll ws) = o.plannedWrites store := by
  funext p
  unfold plannedWrites
  rw [Store.openTable_appliedAll]

theorem code_ne_of_plannedWrites (h : o.plannedWrites store p = .error e) :
    e.code ≠ .remoteApply := by
  unfold plannedWrites at h
  split at h
  . cases h
    simp [TransferError.code]
  . split at h
    . cases h
      exact TransferError.code_store_ne _
    . exact Dataset.code_ne_of_writes h

theorem length_of_plannedWrites {ws : List Write} (h : o.plannedWrites store p = .ok ws) :
    ws.length = p.2.rows.length := by
  unfold plannedWrites at h
  split at h
  . contradiction
  . split at h
    . contradiction
    . rw [Dataset.length_of_writes h]
      split
      . rw [Dataset.length_rows_retainFields]
      . rfl

/-!
# Plans
-/

/--
What becomes of a plan, given the writes that its datasets come to: its result, and the store that
it leaves. The datasets before the one that fails are written, and the policy accepts their writes.
Nothing can be sent if the session is closed.
-/
inductive Outcome (policy : BatchPolicy) (closed : Bool) (store : Store)
    (planned : List (Except TransferError (List Write))) :
    Except TransferError Unit → Store → Prop where
  /-- All datasets were written. -/
  | done (wss : List (List Write)) (hplanned : planned = wss.map .ok)
    (haccepts : policy.Accepts store wss.flatten) :
    Outcome policy closed store planned (.ok ()) (wss.flatten.foldl Store.applied store)
  /-- A dataset came to no writes. -/
  | unwritten (wss : List (List Write)) {rest : List (Except TransferError (List Write))}
    {e : TransferError} (hplanned : planned = wss.map .ok ++ .error e :: rest)
    (haccepts : policy.Accepts store wss.flatten) (hcode : e.code ≠ .remoteApply) :
    Outcome policy closed store planned (.error e) (wss.flatten.foldl Store.applied store)
  /-- The first write of a dataset could not be sent. -/
  | unsent (wss : List (List Write)) {w : Write} {ws : List Write}
    {rest : List (Except TransferError (List Write))}
    (hplanned : planned = wss.map .ok ++ .ok (w :: ws) :: rest)
    (haccepts : policy.Accepts store wss.flatten) (hclosed : closed = true) :
    Outcome policy closed store planned (.error (.store .sessionClosed))
      (wss.flatten.foldl Store.applied store)
  /-- A write of a dataset was turned down, and may not be ignored. -/
  | rejected (wss : List (List Write)) {ws : List Write}
    {rest : List (Except TransferError (List Write))} {e : TransferError}
    (hplanned : planned = wss.map .ok ++ .ok ws :: rest)
    (haccepts : policy.Accepts store wss.flatten)
    (hrejected : ¬ policy.Accepts (store.appliedAll wss.flatten) ws)
    (hcode : e.code = .remoteApply) :
    Outcome policy closed store planned (.error e) ((wss.flatten ++ ws).foldl Store.applied store)

variable {policy : BatchPolicy} {closed : Bool}
variable {planned : List (Except TransferError (List Write))}
variable {result : Except TransferError Unit} {store' : Store} {ws : List Write}

theorem Outcome.cons (haccepts : policy.Accepts store ws)
    (h : Outcome policy closed (store.appliedAll ws) planned result store') :
    Outcome policy closed store (.ok ws :: planned) result store' := by
  have happlied : ∀ ws', ws'.foldl Store.applied (store.appliedAll ws)
      = (ws ++ ws').foldl Store.applied store := fun ws' => List.foldl_append.symm
  cases h with
  | done wss hplanned hrest =>
    rw [happlied]
    exact .done (ws :: wss) (by rw [hplanned]; rfl)
      (BatchPolicy.accepts_append.2 ⟨haccepts, hrest⟩)
  | unwritten wss hplanned hrest hcode =>
    rw [happlied]
    exact .unwritten (ws :: wss) (by rw [hplanned]; rfl)
      (BatchPolicy.accepts_append.2 ⟨haccepts, hrest⟩) hcode
  | unsent wss hplanned hrest hclosed =>
    rw [happlied]
    exact .unsent (ws :: wss) (by rw [hplanned]; rfl)
      (BatchPolicy.accepts_append.2 ⟨haccepts, hrest⟩) hclosed
  | rejected wss hplanned hrest hrejected hcode =>
    rw [happlied, ← List.append_assoc]
    refine .rejected (ws :: wss) (by rw [hplanned]; rfl)
      (BatchPolicy.accepts_append.2 ⟨haccepts, hrest⟩) ?_ hcode
    rwa [List.flatten_cons, Store.appliedAll_append]

/--
There is room for every failure of a dataset that is written.
-/
def Roomy (policy : BatchPolicy) (capacity : Nat) (store : Store)
    (planned : List (Except TransferError (List Write))) : Prop :=
  ∀ (wss : List (List Write)) ws rest, planned = wss.map .ok ++ .ok ws :: rest →
    policy.Accepts store wss.flatten →
    ((store.appliedAll wss.flatten).rejections ws).length ≤ capacity

theorem Roomy.cons {capacity : Nat} (h : Roomy policy capacity store (.ok ws :: planned))
    (haccepts : policy.Accepts store ws) :
    Roomy policy capacity (store.appliedAll ws) planned := by
  intro wss ws' rest hplanned hrest
  have hroom := h (ws :: wss) ws' rest (by rw [hplanned]; rfl)
    (BatchPolicy.accepts_append.2 ⟨haccepts, hrest⟩)
  rwa [List.flatten_cons, Store.appliedAll_append] at hroom

/--
There is room if the session keeps as many failures as each dataset has rows.
-/
theorem roomy_of_rows {plan : List (Intent × Dataset)} {capacity : Nat}
    (h : ∀ p ∈ plan, p.2.rows.length ≤ capacity) :
    Roomy policy capacity store (plan.map (o.plannedWrites store)) := by
  intro wss ws rest hplanned _
  have hmem : .ok ws ∈ plan.map (o.plannedWrites store) := by simp [hplanned]
  obtain ⟨p, hp, hws⟩ := List.mem_map.1 hmem
  calc ((store.appliedAll wss.flatten).rejections ws).length
      ≤ ws.length := Store.length_rejections_le _ ws
    _ = p.2.rows.length := length_of_plannedWrites hws
    _ ≤ capacity := h p hp

/-!
# Datasets
-/

section Ready

variable {s : Service} {x : Session} {plan : List (Intent × Dataset)}

/--
The session of the connection has nothing outstanding, and no call on the connection fails.
-/
structure Ready (s : Service) (x : Session) : Prop where
  holds : s.Holds ⟨0, true⟩ x
  steady : x.Steady
  outstanding_eq : x.outstanding = 0
  outage_eq : s.connection.outage = {}

theorem Ready.openTable_eq (h : Ready s x) (name : String) :
    openTable s name
      =
    match s.store.openTable name with
    | .ok t => .ok t
    | .error e => .error (.store e) := by
  unfold openTable Connection.openTable
  cases s.store.openTable name <;> simp [h.outage_eq]

theorem Ready.write_eq (h : Ready s x) (kind : WriteKind) (d : Dataset) :
    o.write ⟨kind, d, o.settings.tableName, o.settings.insertIgnore⟩ s
      =
    match s.store.openTable o.settings.tableName with
    | .error e => (.error (.store e), s)
    | .ok t =>
      match d.writes kind t with
      | .error e => (.error e, s)
      | .ok ws => s.applyBatch o.batchPolicy ⟨0, true⟩ ws := by
  have hsession : s.connectionSession = .ok ⟨0, true⟩ := by
    simp [Service.connectionSession, h.outage_eq]
  unfold write
  rw [h.openTable_eq, hsession]
  dsimp only
  cases s.store.openTable o.settings.tableName with
  | error e => rfl
  | ok t => cases d.writes kind t <;> rfl

/--
These are the names of the fields that are written, whenever the table of the output can be opened.
-/
def Keeps (o : Output) (store : Store) (keep? : Option (List String)) : Prop :=
  ∀ t, store.openTable o.settings.tableName = .ok t →
    keep? = if o.settings.ignoreMissingColumns then some t.schema.names else none

theorem Keeps.appliedAll (h : o.Keeps store keep?) (ws : List Write) :
    o.Keeps (store.appliedAll ws) keep? := by
  unfold Keeps
  rw [Store.openTable_appliedAll]
  exact h

theorem Keeps.bulkCall_eq (h : o.Keeps store keep?) {t : TableHandle}
    (htable : store.openTable o.settings.tableName = .ok t) (intent : Intent) (d : Dataset) :
    o.bulkCall keep? intent d
      =
    match intent.writeKind with
    | .error _ => .error (.unsupportedIntent (intent.name ++ " (bulk)"))
    | .ok kind =>
      .ok ⟨kind, if o.settings.ignoreMissingColumns then d.retainFields t.schema.names else d,
        o.settings.tableName, o.settings.insertIgnore⟩ := by
  unfold bulkCall
  rw [h t htable]
  cases o.settings.ignoreMissingColumns <;> rfl

theorem Ready.keeps_or_fails (h : Ready s x) :
    (∃ keep?, o.keptFields s = .ok keep? ∧ o.Keeps s.store keep?)
      ∨ o.settings.ignoreMissingColumns = true ∧ ∃ e,
        s.store.openTable o.settings.tableName = .error e
          ∧ o.keptFields s = .error (.store e) := by
  unfold keptFields Keeps
  split
  . next hdrop =>
    rw [h.openTable_eq]
    cases s.store.openTable o.settings.tableName with
    | error e => exact .inr ⟨hdrop, e, rfl, rfl⟩
    | ok t =>
      refine .inl ⟨_, rfl, ?_⟩
      intro t' ht'
      cases ht'
      rfl
  . exact .inl ⟨none, rfl, fun _ _ => rfl⟩

theorem Ready.writeAll_cons (h : Ready s x) (hkeep : o.Keeps s.store keep?) :
    o.writeAll keep? o.write (p :: plan) s
      =
    match o.plannedWrites s.store p with
    | .error e => (.error e, s)
    | .ok ws =>
      match s.applyBatch o.batchPolicy ⟨0, true⟩ ws with
      | (.error e, s) => (.error e, s)
      | (.ok (), s) => o.writeAll keep? o.write plan s := by
  obtain ⟨intent, d⟩ := p
  rw [Output.writeAll]
  unfold plannedWrites
  cases htable : s.store.openTable o.settings.tableName with
  | error e =>
    unfold bulkCall
    cases intent.writeKind with
    | error e => rfl
    | ok kind =>
      dsimp only
      rw [h.write_eq, htable]
  | ok t =>
    rw [hkeep.bulkCall_eq htable]
    cases intent.writeKind with
    | error e => rfl
    | ok kind =>
      dsimp only
      rw [h.write_eq, htable]
      dsimp only
      cases (if o.settings.ignoreMissingColumns then d.retainFields t.schema.names
        else d).writes kind t with
      | error e => rfl
      | ok ws =>
        dsimp only
        rcases s.applyBatch o.batchPolicy ⟨0, true⟩ ws with ⟨_ | _, s'⟩ <;> rfl

theorem Ready.of_applies (h : Ready s x) {s' : Service} {store : Store}
    (houtage : s'.connection.outage = s.connection.outage)
    (happlies : Service.Applies x store ⟨0, true⟩ ws s') :
    ∃ y, Ready s' y ∧ y.settings = x.settings ∧ y.closed = x.closed := by
  obtain ⟨-, y, hy, hclears⟩ := happlies
  rw [h.outage_eq] at houtage
  exact ⟨y, ⟨hy, hclears.clean.steady, hclears.clean.outstanding_eq, houtage⟩,
    hclears.settings_eq, hclears.closed_eq⟩

/--
A batch is accepted and leaves the session ready, or it is turned down after all its writes were
applied, or the session is closed and nothing could be sent.
-/
theorem Ready.applyBatch_cases (h : Ready s x) (htimeout : policy.timeout? = none)
    (hroom : (s.store.rejections ws).length ≤ x.settings.errorCapacity) :
    (∃ s' y, s.applyBatch policy ⟨0, true⟩ ws = (.ok (), s')
        ∧ policy.Accepts s.store ws ∧ s'.store = s.store.appliedAll ws
        ∧ Ready s' y ∧ y.settings = x.settings ∧ y.closed = x.closed)
      ∨ (∃ e s', s.applyBatch policy ⟨0, true⟩ ws = (.error e, s')
        ∧ ¬ policy.Accepts s.store ws ∧ s'.store = s.store.appliedAll ws ∧ e.code = .remoteApply)
      ∨ ∃ s' w ws', s.applyBatch policy ⟨0, true⟩ ws = (.error (.store .sessionClosed), s')
        ∧ x.closed = true ∧ ws = w :: ws' ∧ s'.store = s.store := by
  have htodo := h.steady.todo_eq_nil h.outstanding_eq
  have houtage : (s.applyBatch policy ⟨0, true⟩ ws).2.connection.outage = s.connection.outage :=
    Service.outage_applyBatch s ws
  rcases h.holds.applyBatch_cases h.steady.exact htimeout ws
    with ⟨-, s', happlies, happly⟩ | ⟨hclosed, hws, s', hstore, happly⟩
  . rw [htodo, Store.appliedAll_nil] at happlies happly
    have hjudge : policy.judge (x.kept s.store ws) = .ok () ↔ policy.Accepts s.store ws :=
      Session.judge_kept_eq_ok_iff hroom
    rw [happly] at houtage
    rcases policy.judge_cases (x.kept s.store ws) with hok | ⟨_, _, _, _, herror⟩
    . obtain ⟨y, hready, hsettings, hclosed⟩ := h.of_applies houtage happlies
      exact .inl ⟨s', y, by rw [happly, hok], hjudge.1 hok, happlies.store_eq, hready, hsettings,
        hclosed⟩
    . refine .inr (.inl ⟨_, s', by rw [happly, herror], ?_, happlies.store_eq, rfl⟩)
      rw [← hjudge, herror]
      simp
  . rw [htodo, Store.appliedAll_nil] at hstore
    obtain ⟨w, ws', hcons⟩ := List.exists_cons_of_ne_nil hws
    exact .inr (.inr ⟨s', w, ws', happly, hclosed, hcons, hstore⟩)

/--
The plan is carried out dataset by dataset, each of which finds the session ready again.
-/
theorem Ready.writeAll_outcome (h : Ready s x) (hkeep : o.Keeps s.store keep?)
    (htimeout : o.settings.applyTimeout? = none)
    (hroom : Roomy o.batchPolicy x.settings.errorCapacity s.store
      (plan.map (o.plannedWrites s.store))) :
    Outcome o.batchPolicy x.closed s.store (plan.map (o.plannedWrites s.store))
      (o.writeAll keep? o.write plan s).1 (o.writeAll keep? o.write plan s).2.store := by
  induction plan generalizing s x with
  | nil => exact .done [] rfl BatchPolicy.accepts_nil
  | cons p plan ih =>
    rw [h.writeAll_cons hkeep]
    rw [List.map_cons] at hroom ⊢
    cases hplanned : o.plannedWrites s.store p with
    | error e =>
      exact .unwritten [] rfl BatchPolicy.accepts_nil (code_ne_of_plannedWrites hplanned)
    | ok ws =>
      rw [hplanned] at hroom
      dsimp only
      have hpolicy : o.batchPolicy.timeout? = none := htimeout
      obtain ⟨s', y, hbatch, haccepts, hstore, hready, hsettings, hclosed⟩
        | ⟨e, s', hbatch, hrejected, hstore, hcode⟩ | ⟨s', w, ws', hbatch, hclosed, hws, hstore⟩ :=
        h.applyBatch_cases hpolicy (hroom [] ws _ rfl BatchPolicy.accepts_nil)
      . rw [hbatch]
        have hrest := hroom.cons haccepts
        have hsame := plannedWrites_appliedAll (o := o) s.store ws
        rw [← hsame, ← hstore, ← hsettings] at hrest
        apply Outcome.cons haccepts
        have hkeep' := hkeep.appliedAll ws
        rw [← hstore] at hkeep'
        rw [← hsame, ← hstore, ← hclosed]
        exact ih hready hkeep' hrest
      . rw [hbatch]
        dsimp only
        rw [hstore]
        exact .rejected [] rfl BatchPolicy.accepts_nil hrejected hcode
      . rw [hbatch, hws]
        dsimp only
        rw [hstore]
        exact .unsent [] rfl BatchPolicy.accepts_nil hclosed

/--
A plan is written dataset by dataset until one fails, on a session that has nothing outstanding and
has room for the failures. It leaves the writes of the datasets before the one that fails, and the
writes of that one only if one of them was turned down. If fields that belong to no column are to be
dropped and the table is missing, then there is nothing to begin with.
-/
theorem applyBulk_outcome (h : Ready s x) (htimeout : o.settings.applyTimeout? = none)
    (hroom : Roomy o.batchPolicy x.settings.errorCapacity s.store
      (plan.map (o.plannedWrites s.store))) :
    Outcome o.batchPolicy x.closed s.store (plan.map (o.plannedWrites s.store))
        (o.applyBulk plan s).1 (o.applyBulk plan s).2.store
      ∨ o.settings.ignoreMissingColumns = true ∧ ∃ e,
        s.store.openTable o.settings.tableName = .error e
          ∧ o.applyBulk plan s = (.error (.store e), s) := by
  unfold applyBulk
  rcases h.keeps_or_fails with ⟨keep?, hfields, hkeep⟩ | ⟨hdrop, e, htable, hfields⟩
  . rw [hfields]
    exact .inl (h.writeAll_outcome hkeep htimeout hroom)
  . rw [hfields]
    exact .inr ⟨hdrop, e, htable, rfl⟩

end Ready

/-!
# Places
-/

/--
Places with a remark that belongs to no column.
-/
def remarked (places : List (String × Int32)) : Dataset where
  schema := ⟨[.optional "region" .string, .optional "remark" .string, .optional "id" .int32]⟩
  rows := places.map fun (region, id) => .bare [.string region, .string "new", .int32 id]

def placesPlan : List (Intent × Dataset) :=
  [(.insert, remarked [("a", 1), ("c", 1)]), (.update, remarked [("c", 1), ("c", 2)]),
    (.delete, remarked [("a", 1)])]

def lenientOutput : Output where
  settings :=
    { connection := "master:7051", tableName := "places", insertIgnore := true,
      ignoreMissingColumns := true }

theorem placesService_ready : Ready placesService {} :=
  ⟨placesService_holds, (Session.clean_new {}).steady, rfl, rfl⟩

/--
The first dataset has a place that is already there, which is ignored, and the second one a place
that is missing, which is not. Nothing is deleted any more.
-/
theorem applyBulk_placesPlan :
    (Ready placesService {} ∧ lenientOutput.settings.applyTimeout? = none
      ∧ Roomy lenientOutput.batchPolicy defaultErrorCapacity placesService.store
        (placesPlan.map (lenientOutput.plannedWrites placesService.store)))
      ∧ (lenientOutput.applyBulk placesPlan placesService).1
        = .error (.rejected "Not found: key not found" "UPDATE places (region=c, id=2)"
            "memory-ts-0" 0)
      ∧ Outcome lenientOutput.batchPolicy false placesService.store
        (placesPlan.map (lenientOutput.plannedWrites placesService.store))
        (lenientOutput.applyBulk placesPlan placesService).1
        (lenientOutput.applyBulk placesPlan placesService).2.store := by
  have hroom : Roomy lenientOutput.batchPolicy defaultErrorCapacity placesService.store
      (placesPlan.map (lenientOutput.plannedWrites placesService.store)) :=
    roomy_of_rows (by decide)
  refine ⟨⟨placesService_ready, rfl, hroom⟩, rfl, ?_⟩
  rcases applyBulk_outcome placesService_ready rfl hroom with houtcome | ⟨-, e, htable, -⟩
  . exact houtcome
  . contradiction

end Output

end KeyedTables
