import SocketPractice.Socket.CliSqlite

/-!
# The creation of the database (`cli_sqlite3.c`)

The database is created by the first call that finds `lc_sqls.sql` to be `NULL`.  The test
stands outside the mutex, and the creation removes a file that is already there, so that
calls which overlap may each create the database, and the later one throws away what the
earlier one has registered in it.

A call is a thread that registers one client; its statements on the shared handle and on
the file system are steps, and what it does under the mutex is one step.  A file lives on
under the handles that have it open when it is removed; with the table of the file in it,
sqlite does what `CliSqlite` says.
-/

namespace SocketPractice.Socket

open Lib.Sql Lib.Runs

/-! ## 1. The code -/

/-- The registration that a call is made for. -/
inductive AddCall where
  | tcp (endid : EndId) (fd : Int32)
  | udp (endid : EndId) (ipaddr : UInt32) (port : UInt16)
deriving DecidableEq, Repr

def AddCall.endid : AddCall → EndId
  | .tcp endid _ => endid
  | .udp endid _ _ => endid

/-- The statements under the mutex. -/
def AddCall.run (t : Table) : AddCall → Table
  | .tcp endid fd => addTcpCliToDatabase t endid fd
  | .udp endid ipaddr port => addUdpCliToDatabase t endid ipaddr port

/-- Where a call is, from its test of `lc_sqls.sql` on. -/
inductive AddPc where
  | testing
  | testingAgain
  | accessing
  | removing
  | opening
  | creatingTable
  | inserting
  | returned
deriving DecidableEq, Repr

/-- The handle and the file system; a file is a number and has the table `CliInfo` or not. -/
structure Database (n : Nat) where
  /-- The file that `lc_sqls.sql` has open. -/
  sql : Option Nat
  /-- The file with the name `srv_sql.db`. -/
  path : Option Nat
  files : Nat → Option Table
  nextFile : Nat
  pcs : Fin n → AddPc

namespace Database

variable {n : Nat}

def setPc (s : Database n) (i : Fin n) (pc : AddPc) : Database n :=
  { s with pcs := Function.update s.pcs i pc }

/-- The table that statements on the handle work on. -/
def table (s : Database n) : Option Table := s.sql.bind s.files

/-- The table of the handle's file takes a new content. -/
def setTable (s : Database n) (t : Table) : Database n :=
  match s.sql with
  | none => s
  | some f => { s with files := Function.update s.files f (some t) }

/-- `sqlite3_open`: the file of that name, which is created if there is none. -/
def sqlite3Open (s : Database n) : Database n :=
  match s.path with
  | some f => { s with sql := some f }
  | none => { s with
      sql := some s.nextFile
      path := some s.nextFile
      files := Function.update s.files s.nextFile none
      nextFile := s.nextFile + 1 }

/-- `CREATE TABLE IF NOT EXISTS`. -/
def createTable (s : Database n) : Database n :=
  match s.table with
  | none => s.setTable []
  | some _ => s

end Database

/-- The next statement of the `i`-th call; the steps from `testingAgain` to `creatingTable`
    are those of `create_cli_sql_database`. -/
def addStep {n : Nat} (calls : Fin n → AddCall) (s : Database n) (i : Fin n) :
    Option (Database n) :=
  match s.pcs i with
  | .testing => some (s.setPc i (if s.sql = none then .testingAgain else .inserting))
  | .testingAgain => some (s.setPc i (if s.sql = none then .accessing else .inserting))
  | .accessing => some (s.setPc i (if s.path = none then .opening else .removing))
  | .removing => some { s.setPc i .opening with path := none }
  | .opening => some (s.sqlite3Open.setPc i .creatingTable)
  | .creatingTable => some (s.createTable.setPc i .inserting)
  | .inserting =>
      match s.table with
      -- the `INSERT` fails: there is no such table
      | none => some (s.setPc i .returned)
      | some t => some ((s.setTable ((calls i).run t)).setPc i .returned)
  | .returned => none

/-- The server at its start: no handle, and perhaps a database from an earlier run. -/
def noDatabase (n : Nat) (old : Option (Option Table)) : Database n :=
  { sql := none
    path := old.map fun _ => 0
    files := Function.update (fun _ => none) 0 old.join
    nextFile := 1
    pcs := fun _ => .testing }

/-! ## 2. Registrations and what keeps them -/

/-- The client has a row in the table that `get_cli_by_endid` reads. -/
def HasRow {n : Nat} (s : Database n) (e : EndId) : Prop :=
  ∃ t, s.table = some t ∧ ∃ row ∈ t, cliInfo.get row "endid" = some e.toInt

/-- The registrations of the calls that have returned are there. -/
def Registered {n : Nat} (calls : Fin n → AddCall) (s : Database n) : Prop :=
  ∀ i, s.pcs i = .returned → HasRow s (calls i).endid

/-- An `INSERT` finds the table, and once a call has registered its client, the database
    is opened again only as the file that the handle has open. -/
def KeepsRows {n : Nat} (s : Database n) (i : Fin n) : Prop :=
  match s.pcs i with
  | .inserting => s.table.isSome = true
  | .opening => (∀ j, s.pcs j ≠ .returned) ∨ (s.path ≠ none ∧ s.path = s.sql)
  | _ => True

instance {n : Nat} (s : Database n) (i : Fin n) : Decidable (KeepsRows s i) := by
  unfold KeepsRows
  split <;> infer_instance

/-! ## 3. What a step does to the registrations -/

section Steps

variable {n : Nat} {calls : Fin n → AddCall} {s t : Database n} {i : Fin n} {r : Registry}

/-- Who is about to open the database finds no file of that name, or the file that the
    handle has open; and the handle's table is that of a registry. -/
structure LazyInv (s : Database n) : Prop where
  opening : ∀ i, s.pcs i = .opening → s.path = none ∨ s.path = s.sql
  registry : ∀ t, s.table = some t → ∃ r : Registry, t = r.table

theorem hasRow_iff (hr : s.table = some r.table) (e : EndId) : HasRow s e ↔ e ∈ r.keys := by
  constructor
  · rintro ⟨t, ht, row, hrow, hget⟩
    obtain rfl : t = r.table := Option.some.inj (ht.symm.trans hr)
    obtain ⟨p, hp, rfl⟩ := List.mem_map.mp hrow
    rw [Registry.get_endid, Option.some.injEq, Int32.toInt_inj] at hget
    rw [← hget]
    exact List.mem_map_of_mem hp
  · intro he
    obtain ⟨p, hp, rfl⟩ := List.mem_map.mp he
    exact ⟨r.table, hr, Registry.row p, List.mem_map_of_mem hp, Registry.get_endid p⟩

theorem not_hasRow (hnone : s.table = none) (e : EndId) : ¬ HasRow s e := by
  rintro ⟨t, ht, -⟩
  rw [hnone] at ht
  cases ht

theorem hasRow_congr (htable : t.table = s.table) (e : EndId) : HasRow t e ↔ HasRow s e := by
  rw [HasRow, HasRow, htable]

theorem mem_keys_set (r : Registry) (e : EndId) (k : Link) (e' : EndId) :
    e' ∈ (r.set e k).keys ↔ e' ∈ r.keys ∨ e' = e := by
  rw [r.mem_keys_iff, (r.set e k).mem_keys_iff, Lib.Assoc.get_set]
  by_cases he : e' = e
  · simp [he]
  · simp [he]

/-- An add call on the table of a registry adds its client, and no other. -/
theorem run_table (r : Registry) (c : AddCall) :
    ∃ r' : Registry, c.run r.table = r'.table ∧ ∀ e, e ∈ r'.keys ↔ e ∈ r.keys ∨ e = c.endid := by
  cases c with
  | tcp endid fd =>
      exact ⟨r.set endid (.tcp fd), Registry.add_tcp_table r endid fd, mem_keys_set r endid _⟩
  | udp endid ipaddr port =>
      by_cases he : endid ∈ r.keys
      · refine ⟨r, ?_, ?_⟩
        · simp only [AddCall.run, Registry.add_udp_table, if_pos he]
        · intro e
          constructor
          · exact Or.inl
          · rintro (h | rfl)
            · exact h
            · exact he
      · refine ⟨r.set endid (.udp ipaddr port), ?_, mem_keys_set r endid _⟩
        simp only [AddCall.run, Registry.add_udp_table, if_neg he]

@[simp] theorem Database.table_setPc (s : Database n) (i : Fin n) (pc : AddPc) :
    (s.setPc i pc).table = s.table := rfl

theorem Database.pcs_setPc_of_ne (s : Database n) {pc : AddPc} {j : Fin n} (hj : j ≠ i) :
    (s.setPc i pc).pcs j = s.pcs j := by
  simp [Database.setPc, Function.update_of_ne hj]

theorem Database.table_setTable {t₀ t : Table} (h : s.table = some t₀) :
    (s.setTable t).table = some t := by
  obtain ⟨f, hf, -⟩ := Option.bind_eq_some_iff.mp h
  simp [Database.setTable, Database.table, hf]

/-- A file that is opened as the one the handle has open changes nothing, and a new one
    has no table. -/
theorem Database.table_sqlite3Open (h : s.path = none ∨ s.path = s.sql) :
    s.sqlite3Open.table = if s.path = none then none else s.table := by
  cases hpath : s.path with
  | none => simp [Database.sqlite3Open, Database.table, hpath]
  | some f =>
      rw [hpath] at h
      have hsql : s.sql = some f := by
        rcases h with h | h
        · cases h
        · exact h.symm
      simp [Database.sqlite3Open, Database.table, hpath, hsql]

theorem Database.path_sqlite3Open (s : Database n) : s.sqlite3Open.path = s.sqlite3Open.sql := by
  cases hpath : s.path <;> simp [Database.sqlite3Open, hpath]

theorem Database.pcs_sqlite3Open (s : Database n) : s.sqlite3Open.pcs = s.pcs := by
  cases hpath : s.path <;> simp [Database.sqlite3Open, hpath]

/-- `CREATE TABLE IF NOT EXISTS` leaves no row out and adds none. -/
theorem Database.table_createTable (s : Database n) :
    s.createTable.table = s.table ∨ s.table = none ∧ s.createTable.table = some [] := by
  unfold Database.createTable
  cases htable : s.table with
  | some t =>
      left
      simp [htable]
  | none =>
      cases hsql : s.sql with
      | none =>
          left
          simp [Database.setTable, hsql, htable]
      | some f =>
          right
          simp [Database.setTable, Database.table, hsql]

theorem Database.setTable_frame (s : Database n) (t : Table) :
    (s.setTable t).pcs = s.pcs ∧ (s.setTable t).path = s.path ∧ (s.setTable t).sql = s.sql := by
  cases hsql : s.sql <;> simp [Database.setTable, hsql]

theorem Database.createTable_frame (s : Database n) :
    s.createTable.pcs = s.pcs ∧ s.createTable.path = s.path ∧ s.createTable.sql = s.sql := by
  unfold Database.createTable
  cases s.table with
  | none => exact s.setTable_frame []
  | some t => exact ⟨rfl, rfl, rfl⟩

theorem hasRow_createTable (s : Database n) (e : EndId) :
    HasRow s.createTable e ↔ HasRow s e := by
  rcases s.table_createTable with hsame | ⟨hnone, hempty⟩
  · exact hasRow_congr hsame e
  · constructor
    · rintro ⟨t, ht, row, hrow, -⟩
      obtain rfl : t = [] := Option.some.inj (ht.symm.trans hempty)
      cases hrow
    · intro h
      exact absurd h (not_hasRow hnone e)

theorem pcs_setPc_returned (s : Database n) {pc : AddPc} (hs : s.pcs i ≠ .returned)
    (hpc : pc ≠ .returned) (j : Fin n) :
    (s.setPc i pc).pcs j = .returned ↔ s.pcs j = .returned := by
  by_cases hj : j = i
  · subst hj
    simp [Database.setPc, hs, hpc]
  · rw [s.pcs_setPc_of_ne hj]

/-- A step on which no call returns, and which keeps the rows. -/
theorem registered_setPc {u : Database n} {pc : AddPc} (hpcs : u.pcs = s.pcs)
    (hrow : ∀ e, HasRow u e ↔ HasRow s e) (hs : s.pcs i ≠ .returned) (hpc : pc ≠ .returned) :
    Registered calls (u.setPc i pc) ↔ Registered calls s := by
  apply forall_congr'
  intro j
  have hsetPc : HasRow (u.setPc i pc) (calls j).endid ↔ HasRow u (calls j).endid :=
    hasRow_congr rfl _
  rw [pcs_setPc_returned u (by rwa [hpcs]) hpc j, hpcs, hsetPc, hrow]

/-- Opening the database keeps the registrations, if there are none or the handle's file
    is opened again. -/
theorem registered_open (h : LazyInv s) (hpc : s.pcs i = .opening) :
    Registered calls (s.sqlite3Open.setPc i .creatingTable) ↔
      Registered calls s ∧ ((∀ j, s.pcs j ≠ .returned) ∨ (s.path ≠ none ∧ s.path = s.sql)) := by
  have hreturned : s.pcs i ≠ .returned := by simp [hpc]
  have htable := Database.table_sqlite3Open (h.opening i hpc)
  by_cases hpath : s.path = none
  · -- a new file: what the calls that have returned registered is not in it
    rw [if_pos hpath] at htable
    have hnone : ∀ e, ¬ HasRow (s.sqlite3Open.setPc i .creatingTable) e := not_hasRow htable
    have hpcs : ∀ j, (s.sqlite3Open.setPc i .creatingTable).pcs j = .returned ↔
        s.pcs j = .returned := by
      intro j
      rw [pcs_setPc_returned _ (by rwa [s.pcs_sqlite3Open]) (by decide) j, s.pcs_sqlite3Open]
    constructor
    · intro hreg
      have hnobody : ∀ j, s.pcs j ≠ .returned := by
        intro j hj
        exact hnone _ (hreg j ((hpcs j).mpr hj))
      exact ⟨fun j hj => absurd hj (hnobody j), Or.inl hnobody⟩
    · rintro ⟨-, hnobody | ⟨hne, -⟩⟩ j hj
      · exact absurd ((hpcs j).mp hj) (hnobody j)
      · exact absurd hpath hne
  · have hsame : s.path = s.sql := (h.opening i hpc).resolve_left hpath
    rw [if_neg hpath] at htable
    rw [registered_setPc s.pcs_sqlite3Open (hasRow_congr htable) hreturned (by decide)]
    constructor
    · intro hreg
      exact ⟨hreg, Or.inr ⟨hpath, hsame⟩⟩
    · intro hreg
      exact hreg.1

/-- An `INSERT` registers its client exactly if it finds the table. -/
theorem registered_insert (hinj : Function.Injective fun j => (calls j).endid) (h : LazyInv s)
    (hpc : s.pcs i = .inserting) (hstep : addStep calls s i = some t) :
    Registered calls t ↔ Registered calls s ∧ s.table.isSome = true := by
  simp only [addStep, hpc] at hstep
  cases htable : s.table with
  | none =>
      simp only [htable, Option.some.injEq] at hstep
      subst hstep
      simp only [Option.isSome_none, Bool.false_eq_true, and_false, iff_false]
      intro hreg
      exact not_hasRow htable _ (hreg i (by simp [Database.setPc]))
  | some t₀ =>
      simp only [htable, Option.some.injEq] at hstep
      subst hstep
      obtain ⟨r, rfl⟩ := h.registry t₀ htable
      obtain ⟨r', hrun, hkeys⟩ := run_table r (calls i)
      have hafter : ((s.setTable ((calls i).run r.table)).setPc i .returned).table =
          some r'.table := by
        rw [Database.table_setPc, Database.table_setTable htable, hrun]
      have hpcs : ∀ j, j ≠ i →
          ((s.setTable ((calls i).run r.table)).setPc i .returned).pcs j = s.pcs j := by
        intro j hj
        rw [Database.pcs_setPc_of_ne _ hj, (s.setTable_frame _).1]
      simp only [Option.isSome_some, and_true]
      constructor
      · intro hreg j hj
        have hji : j ≠ i := by
          rintro rfl
          rw [hpc] at hj
          cases hj
        have hrow := hreg j ((hpcs j hji).trans hj)
        rw [hasRow_iff hafter, hkeys] at hrow
        rw [hasRow_iff htable]
        exact hrow.resolve_right fun heq => hji (hinj heq)
      · intro hreg j hj
        rw [hasRow_iff hafter, hkeys]
        by_cases hji : j = i
        · exact Or.inr (by rw [hji])
        · rw [hpcs j hji] at hj
          exact Or.inl ((hasRow_iff htable _).mp (hreg j hj))

/-- A step keeps the registrations of the calls that have returned exactly if it meets
    the condition. -/
theorem registered_step (hinj : Function.Injective fun j => (calls j).endid) (h : LazyInv s)
    (hstep : addStep calls s i = some t) :
    Registered calls t ↔ Registered calls s ∧ KeepsRows s i := by
  cases hpc : s.pcs i with
  | inserting =>
      rw [registered_insert hinj h hpc hstep]
      simp only [KeepsRows, hpc]
  | opening =>
      simp only [addStep, hpc, Option.some.injEq] at hstep
      subst hstep
      rw [registered_open h hpc]
      simp only [KeepsRows, hpc]
  | returned =>
      simp only [addStep, hpc] at hstep
      cases hstep
  | creatingTable =>
      simp only [addStep, hpc, Option.some.injEq] at hstep
      subst hstep
      rw [registered_setPc s.createTable_frame.1 (hasRow_createTable s) (by simp [hpc])
        (by decide)]
      simp only [KeepsRows, hpc, and_true]
  | removing =>
      simp only [addStep, hpc, Option.some.injEq] at hstep
      subst hstep
      have hrow : ∀ e, HasRow { s with path := none } e ↔ HasRow s e := hasRow_congr rfl
      have hsame : Registered calls ({ s with path := none }.setPc i .opening) ↔
          Registered calls s := registered_setPc rfl hrow (by simp [hpc]) (by decide)
      simp only [KeepsRows, hpc, and_true]
      exact hsame
  | _ =>
      simp only [addStep, hpc, Option.some.injEq] at hstep
      subst hstep
      rw [registered_setPc rfl (fun _ => Iff.rfl) (by simp [hpc]) (by split <;> decide)]
      simp only [KeepsRows, hpc, and_true]

theorem LazyInv.setPc {u : Database n} {pc : AddPc} (hpcs : u.pcs = s.pcs)
    (hothers : ∀ j, s.pcs j = .opening → u.path = none ∨ u.path = u.sql)
    (hself : pc = .opening → u.path = none ∨ u.path = u.sql)
    (hregistry : ∀ t, u.table = some t → ∃ r : Registry, t = r.table) :
    LazyInv (u.setPc i pc) where
  opening := by
    intro j hj
    by_cases hji : j = i
    · subst hji
      exact hself (by simpa [Database.setPc] using hj)
    · rw [u.pcs_setPc_of_ne hji, hpcs] at hj
      exact hothers j hj
  registry := hregistry

theorem lazyInv_step (h : LazyInv s) (hstep : addStep calls s i = some t) : LazyInv t := by
  cases hpc : s.pcs i with
  | returned =>
      simp only [addStep, hpc] at hstep
      cases hstep
  | accessing =>
      simp only [addStep, hpc, Option.some.injEq] at hstep
      subst hstep
      apply LazyInv.setPc rfl h.opening ?_ h.registry
      intro hopening
      split at hopening
      · exact Or.inl (by assumption)
      · cases hopening
  | removing =>
      simp only [addStep, hpc, Option.some.injEq] at hstep
      subst hstep
      have hinv : LazyInv ({ s with path := none }.setPc i .opening) :=
        LazyInv.setPc rfl (fun _ _ => Or.inl rfl) (fun _ => Or.inl rfl) h.registry
      exact hinv
  | opening =>
      simp only [addStep, hpc, Option.some.injEq] at hstep
      subst hstep
      apply LazyInv.setPc s.pcs_sqlite3Open (fun _ _ => Or.inr s.path_sqlite3Open)
      · intro hopening
        cases hopening
      · intro t ht
        rw [Database.table_sqlite3Open (h.opening i hpc)] at ht
        split at ht
        · cases ht
        · exact h.registry t ht
  | creatingTable =>
      simp only [addStep, hpc, Option.some.injEq] at hstep
      subst hstep
      obtain ⟨hpcs, hpath, hsql⟩ := s.createTable_frame
      apply LazyInv.setPc hpcs
      · intro j hj
        rw [hpath, hsql]
        exact h.opening j hj
      · intro hopening
        cases hopening
      · intro t ht
        rcases s.table_createTable with hsame | ⟨-, hempty⟩
        · exact h.registry t (hsame ▸ ht)
        · obtain rfl : t = [] := Option.some.inj (ht.symm.trans hempty)
          exact ⟨Lib.Assoc.empty, rfl⟩
  | inserting =>
      simp only [addStep, hpc] at hstep
      cases htable : s.table with
      | none =>
          simp only [htable, Option.some.injEq] at hstep
          subst hstep
          exact LazyInv.setPc rfl h.opening (fun hopening => by cases hopening) h.registry
      | some t₀ =>
          simp only [htable, Option.some.injEq] at hstep
          subst hstep
          obtain ⟨r, rfl⟩ := h.registry t₀ htable
          obtain ⟨r', hrun, -⟩ := run_table r (calls i)
          obtain ⟨hpcs, hpath, hsql⟩ := s.setTable_frame ((calls i).run r.table)
          apply LazyInv.setPc hpcs
          · intro j hj
            rw [hpath, hsql]
            exact h.opening j hj
          · intro hopening
            cases hopening
          · intro t ht
            rw [Database.table_setTable htable, hrun, Option.some.injEq] at ht
            exact ⟨r', ht.symm⟩
  | testing | testingAgain =>
      simp only [addStep, hpc, Option.some.injEq] at hstep
      subst hstep
      apply LazyInv.setPc rfl h.opening ?_ h.registry
      intro hopening
      split at hopening <;> cases hopening

theorem noDatabase_inv (n : Nat) (old : Option (Option Table)) :
    LazyInv (noDatabase n old) where
  opening := fun _ h => by cases h
  registry := fun _ h => by cases h

/-! ## 4. Runs -/

/-- When all calls have returned, each has its row in the table that is read, if and only
    if every `INSERT` found the table and no file was opened in the place of one that a
    client was registered in. -/
theorem all_registered_iff_keepsRows (calls : Fin n → AddCall)
    (hinj : Function.Injective fun i => (calls i).endid) (old : Option (Option Table))
    {es : List (Fin n)} (hrun : exec (addStep calls) (noDatabase n old) es = some s)
    (hreturned : ∀ i, s.pcs i = .returned) :
    (∀ i, HasRow s (calls i).endid) ↔
      Along (addStep calls) KeepsRows (noDatabase n old) es := by
  have hstart : Registered calls (noDatabase n old) := by
    intro i hi
    cases hi
  have hiff := exec_iff_along_of_invariant (I := Registered calls) (J := LazyInv)
    (fun _ _ _ h ht => lazyInv_step h ht) (fun _ _ _ h ht => registered_step hinj h ht)
    (noDatabase_inv n old) hrun
  constructor
  · intro h
    exact (hiff.mp fun i _ => h i).2
  · intro h i
    exact hiff.mpr ⟨hstart, h⟩ i (hreturned i)

end Steps

/-! ## 5. Two clients at start-up -/

def twoClients (i : Fin 2) : AddCall := if i = 0 then .tcp 7 5 else .udp 8 0x0100007f 4242

theorem twoClients_injective : Function.Injective fun i => (twoClients i).endid := by
  have hinj : ∀ i j : Fin 2, (twoClients i).endid = (twoClients j).endid → i = j := by decide
  exact hinj

/-- Both calls find `lc_sqls.sql` to be `NULL`; the second creates the database after the
    first has registered its client. -/
def secondRemoves : List (Fin 2) := [0, 1, 0, 1, 0, 0, 0, 0, 1, 1, 1, 1, 1]

theorem first_registration_removed :
    ∃ s, exec (addStep twoClients) (noDatabase 2 none) secondRemoves = some s ∧
      (∀ i, s.pcs i = .returned) ∧ ¬ ∀ i, HasRow s (twoClients i).endid := by
  have hrun : (exec (addStep twoClients) (noDatabase 2 none) secondRemoves).map
      (fun s => (decide (∀ i, s.pcs i = .returned), s.table)) =
      some (true, some [[some 8, none, some 0x0100007f, some 4242]]) := by decide +kernel
  obtain ⟨s, hs, hs'⟩ := Option.map_eq_some_iff.mp hrun
  obtain ⟨hreturned, htable⟩ := Prod.mk.inj hs'
  refine ⟨s, hs, of_decide_eq_true hreturned, ?_⟩
  intro hrows
  obtain ⟨t, ht, row, hrow, hget⟩ := hrows 0
  obtain rfl := Option.some.inj (ht.symm.trans htable)
  obtain rfl := List.mem_singleton.mp hrow
  revert hget
  decide

/-- One call after the other, over a database from an earlier run. -/
def secondFinds : List (Fin 2) := [0, 0, 0, 0, 0, 0, 0, 1, 1]

theorem all_registered_secondFinds :
    ∃ s, exec (addStep twoClients) (noDatabase 2 (some none)) secondFinds = some s ∧
      ∀ i, HasRow s (twoClients i).endid := by
  have hrun : (exec (addStep twoClients) (noDatabase 2 (some none)) secondFinds).map
      (fun s => decide (∀ i, s.pcs i = .returned)) = some true := by decide +kernel
  obtain ⟨s, hs, hreturned⟩ := Option.map_eq_some_iff.mp hrun
  exact ⟨s, hs, (all_registered_iff_keepsRows twoClients twoClients_injective (some none) hs
    (of_decide_eq_true hreturned)).mpr (by decide +kernel)⟩

end SocketPractice.Socket
