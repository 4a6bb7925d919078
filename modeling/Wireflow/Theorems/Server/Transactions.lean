/-
# Transactions

What a program does between `begin` and the end of its transaction stays on a copy of the
database, which is kept if the program succeeds and the commit takes effect. The cluster is not
part of it.
-/

import Wireflow.Server.Workspaces
import Wireflow.Theorems.Server.Frames

namespace Wireflow.Server

open Semantics Program OfficeCall
open Wireflow.Api

/-! ## Inside a transaction -/

/-- Calls that neither open nor close a transaction, and delete no namespace. -/
def OfficeCall.Inside : OfficeCall → Prop
  | .begin => False
  | .commit => False
  | .rollback => False
  | .kube (.deleteNamespace _) => False
  | _ => True

/-- A transaction that started from `db` is open. -/
structure Working (db : Database) (o : Office) : Prop where
  db : o.db = db
  tx : o.tx.isSome = true

theorem Working.setView {db : Database} {o : Office} (h : Working db o) (db' : Database) :
    Working db (o.setView db') := by
  obtain ⟨tx, htx⟩ := Option.isSome_iff_exists.mp h.tx
  have hset : o.setView db' = { o with tx := some db' } := by rw [Office.setView, htx]
  rw [hset]
  exact ⟨h.db, rfl⟩

theorem Working.execOffice {db : Database} {o : Office} (h : Working db o) {c : OfficeCall}
    (hc : c.Inside) (t : Turn) : Working db (execOffice c t o).2 := by
  cases c with
  | db c => exact h.setView _
  | kube c => exact ⟨h.db, h.tx⟩
  | begin | commit | rollback => exact hc.elim
  | _ => exact h

/-- Namespaces stay. -/
theorem mem_namespaces_execOffice {c : OfficeCall} (hc : c.Inside) (t : Turn) {o : Office}
    {ns : String} (hns : ns ∈ o.cluster.namespaces) :
    ns ∈ (execOffice c t o).2.cluster.namespaces := by
  cases c with
  | db c =>
    change ns ∈ (o.setView _).cluster.namespaces
    rwa [Office.cluster_setView]
  | kube c =>
    refine (frame_execOffice c t o).namespaces ?_ hns
    rintro name rfl
    exact hc
  | begin | commit | rollback => exact hc.elim
  | _ => exact hns

/-- Every call of a program meets a condition, whatever the answers. -/
def Confined {α : Type} (P : OfficeCall → Prop) (p : OfficeProg α) : Prop :=
  p.Obeys (fun _ _ => True) P fun _ => True

namespace Confined

variable {α β : Type} {P : OfficeCall → Prop}

theorem ret (a : α) : Confined P (.ret a) := trivial

theorem call (c : OfficeCall) (hc : P c) : Confined P c.issue := ⟨hc, fun _ _ => trivial⟩

theorem db (c : DbCall) (hc : P (.db c)) : Confined P c.issue := ⟨hc, fun _ _ => trivial⟩

theorem kube (c : KubeCall) (hc : P (.kube c)) : Confined P c.issue := ⟨hc, fun _ _ => trivial⟩

theorem bind {p : OfficeProg α} {f : α → OfficeProg β} (hp : Confined P p)
    (hf : ∀ a, Confined P (f a)) : Confined P (p >>= f) :=
  obeys_bind hp fun a _ => hf a

theorem unwrap {p : OfficeProg (Except GoError α)} {f : α → OfficeProg (Except GoError β)}
    (hp : Confined P p) (hf : ∀ a, Confined P (f a)) : Confined P (p.unwrap f) :=
  obeys_unwrap hp (fun _ _ => trivial) fun a _ => hf a

theorem mapError {p : OfficeProg (Except GoError α)} {g : GoError → GoError}
    (hp : Confined P p) : Confined P (p.mapError g) :=
  hp.bind fun _ => ret _

/-- Whatever such calls keep holds after a run. -/
theorem run {p : OfficeProg α} (hp : Confined P p) {I : Office → Prop}
    (hI : ∀ c t o, P c → I o → I (execOffice c t o).2) {d : Desk} (hd : I d.office) :
    I (p.run attend d).2.office :=
  (run_obeys (I := fun d : Desk => I d.office) hp
    (fun c d hc hd => ⟨trivial, hI c (d.turns 0) d.office hc hd⟩) hd).2

end Confined

/-- A program that could be the body of a transaction. -/
abbrev StaysInside {α : Type} (p : OfficeProg α) : Prop := Confined OfficeCall.Inside p

section StaysInside

variable {α β : Type}

theorem staysInside_db (c : DbCall) : StaysInside c.issue := .db c trivial

/-- The same for what follows a program, from where that has ended. -/
theorem run_unwrap_of_staysInside {p : OfficeProg (Except GoError α)}
    {f : α → OfficeProg (Except GoError β)} (hf : ∀ a, StaysInside (f a)) {I : Office → Prop}
    (hI : ∀ c t o, c.Inside → I o → I (execOffice c t o).2) {d : Desk}
    (hd : I (p.run attend d).2.office) : I ((p.unwrap f).run attend d).2.office := by
  cases hp : (p.run attend d).1 with
  | error err =>
    rw [run_unwrap_error hp]
    exact hd
  | ok a =>
    rw [run_unwrap_ok hp]
    exact (hf a).run hI hd

end StaysInside

/-! ## The end of a transaction -/

/-- An office that has opened a transaction. -/
def Office.begun (o : Office) : Office := { o with tx := some o.db }

@[simp] theorem Office.view_begun (o : Office) : o.begun.view = o.db := rfl

/-- How a transaction from `d` ends whose body ends with `b`: in `r`. -/
inductive TxOutcome {α : Type} (d : Desk) (b r : Except GoError α × Desk) : Prop
  | notBegun (err : GoError) (hfault : (d.turns 0).fault = some err) (hr : r.1 = .error err)
      (hoffice : r.2.office = d.office)
  /-- Rolled back, or the commit has failed. -/
  | undone (err : GoError) (hfault : (d.turns 0).fault = none) (hr : r.1 = .error err)
      (hoffice : r.2.office = { b.2.office with db := d.office.db, tx := none })
  /-- Committed, which the caller may not get to know. -/
  | kept (a : α) (hfault : (d.turns 0).fault = none) (hb : b.1 = .ok a)
      (hr : r.1 = .ok a ∨ ∃ err, r.1 = .error err)
      (hoffice : r.2.office = b.2.office.committed)

/-- What a commit does to the office. -/
theorem run_commit_cases {α : Type} (a : α) (d : Desk) :
    let r := (commit.issue.unwrap fun _ => succeed a).run attend d
    ((r.1 = .ok a ∨ ∃ err, r.1 = .error err) ∧ r.2.office = d.office.committed) ∨
      ∃ err, r.1 = .error err ∧ r.2.office = { d.office with tx := none } := by
  intro r
  have hcommit : commit.issue.run attend d =
      (((d.turns 0).answer { d.office with tx := none } (.ok ((), d.office.committed))).1,
        d.next ((d.turns 0).answer { d.office with tx := none }
          (.ok ((), d.office.committed))).2) := rfl
  rcases (d.turns 0).answer_cases { d.office with tx := none } (.ok ((), d.office.committed)) with
    ⟨err, herr⟩ | ⟨value, o', heq, hok | ⟨err, herr⟩⟩
  · rw [herr] at hcommit
    have hr : r = _ := run_unwrap_error (congrArg Prod.fst hcommit)
    rw [hr, hcommit]
    exact .inr ⟨err, rfl, rfl⟩
  · cases heq
    rw [hok] at hcommit
    have hr : r = _ := run_unwrap_ok (congrArg Prod.fst hcommit)
    rw [hr, hcommit]
    exact .inl ⟨.inl rfl, rfl⟩
  · cases heq
    rw [herr] at hcommit
    have hr : r = _ := run_unwrap_error (congrArg Prod.fst hcommit)
    rw [hr, hcommit]
    exact .inl ⟨.inr ⟨err, rfl⟩, rfl⟩

/-- **The end of a transaction.** -/
theorem run_transaction {α : Type} {body : OfficeProg (Except GoError α)}
    (hbody : StaysInside body) (d : Desk) :
    TxOutcome d (body.run attend (d.next d.office.begun)) ((transaction body).run attend d) := by
  cases hfault : (d.turns 0).fault with
  | some err =>
    have hbegin : begin.issue.run attend d = (.error err, d.next d.office) := by
      simp [issue, perform, attend, execOffice, Turn.local, hfault, Desk.next]
    have hr : (transaction body).run attend d = (.error err, d.next d.office) := by
      rw [transaction, run_unwrap_error (congrArg Prod.fst hbegin), hbegin]
    rw [hr]
    exact .notBegun err hfault rfl rfl
  | none =>
    have hbegin : begin.issue.run attend d = (.ok (), d.next d.office.begun) := by
      simp [issue, perform, attend, execOffice, Turn.local, hfault, Desk.next,
        Office.begun]
    rw [transaction, run_unwrap_ok (congrArg Prod.fst hbegin), hbegin, run_bind]
    have hworking : Working d.office.db (body.run attend (d.next d.office.begun)).2.office :=
      hbody.run (fun _ t _ hc h => h.execOffice hc t) ⟨rfl, rfl⟩
    generalize body.run attend (d.next d.office.begun) = b at hworking
    obtain ⟨result, d'⟩ := b
    have hdb : { d'.office with tx := none } =
        { d'.office with db := d.office.db, tx := none } := by rw [← hworking.db]
    cases result with
    | error err => exact .undone err hfault rfl hdb
    | ok a =>
      rcases run_commit_cases a d' with ⟨hr, hoffice⟩ | ⟨err, hr, hoffice⟩
      · exact .kept a hfault rfl hr hoffice
      · exact .undone err hfault hr (hoffice.trans hdb)

/-- The database after a transaction. -/
theorem db_run_transaction {α : Type} {body : OfficeProg (Except GoError α)}
    (hbody : StaysInside body) (d : Desk) :
    (((transaction body).run attend d).2.office.db = d.office.db ∧
        ∃ err, ((transaction body).run attend d).1 = .error err) ∨
      ∃ a, (body.run attend (d.next d.office.begun)).1 = .ok a ∧
        ((transaction body).run attend d).2.office.db =
          (body.run attend (d.next d.office.begun)).2.office.view := by
  cases run_transaction hbody d with
  | notBegun err _ hr hoffice => exact .inl ⟨congrArg Office.db hoffice, err, hr⟩
  | undone err _ hr hoffice => exact .inl ⟨by rw [hoffice], err, hr⟩
  | kept a _ hb _ hoffice => exact .inr ⟨a, hb, congrArg Office.db hoffice⟩

/-! ## Statements -/

/-- A statement that is carried out and answered. -/
theorem run_db_of_apply {c : DbCall} {d : Desk} {a : c.Res} {db' : Database}
    (hfault : (d.turns 0).fault = none)
    (happly : c.apply (d.turns 0).fresh d.office.view = .ok (a, db')) :
    c.issue.run attend d = (.ok a, d.next (d.office.setView db')) := by
  have hanswer : (d.turns 0).answer d.office.view
      (c.apply (d.turns 0).fresh d.office.view) = (.ok a, db') := by
    simp only [happly, Turn.answer, hfault]
  change (((d.turns 0).answer d.office.view _).1, d.next (d.office.setView
    ((d.turns 0).answer d.office.view _).2)) = _
  rw [hanswer]

/-- A query that finds something, and what follows it. -/
theorem run_query_unwrap {β : Type} {c : DbCall} {d : Desk} {a : c.Res} {g : GoError → GoError}
    {f : c.Res → OfficeProg (Except GoError β)} (hfault : (d.turns 0).fault = none)
    (happly : c.apply (d.turns 0).fresh d.office.view = .ok (a, d.office.view)) :
    ((c.issue.mapError g).unwrap f).run attend d = (f a).run attend (d.next d.office) := by
  rw [unwrap, mapError, run_bind, run_bind,
    run_db_of_apply hfault happly, Office.setView_view]
  rfl

/-!
## Roles

Who counts as what by the rows of the database, and what `RequireWorkspaceRole` asks for. A user
may have several membership rows in one workspace; the one that counts is the one found first.
-/

section

variable {d : Desk} {db : Database} {wsId userId : String} {role : WorkspaceRole}

/-- A user whose row says platform admin. -/
def PlatformAdmin (db : Database) (userId : String) : Prop :=
  ∃ user, live User.deleted db.users userId = some user ∧ user.systemRole = .platformAdmin

/-- The membership of a user, which is the row found first, has a role and a status. -/
def MemberRow (db : Database) (wsId userId : String) (role : WorkspaceRole)
    (status : MemberStatus → Prop) : Prop :=
  ∃ key m, db.membership wsId userId = some (key, m) ∧ status m.status ∧
    getRoleWeight role ≤ getRoleWeight m.role

/-- An active member with at least a role. -/
def ActiveMember (db : Database) (wsId userId : String) (role : WorkspaceRole) : Prop :=
  MemberRow db wsId userId role (· = .active)

/-- The statuses that `RequireWorkspaceRole` does not turn away. -/
def MemberStatus.Admitted (status : MemberStatus) : Prop :=
  status ≠ .suspended ∧ status ≠ .removed

theorem getUser_eq_ok {uuid : String} {db' : Database} {user : User}
    (h : (DbCall.getUser userId).apply uuid db = .ok (user, db')) :
    live User.deleted db.users userId = some user :=
  (foundRow_map_eq_ok h).1

/-- `RequireWorkspaceRole` changes nothing, and lets through platform admins and members whose row
has the role and is neither suspended nor removed. -/
theorem ensures_requireWorkspaceRole (wsId userId : String) (role : WorkspaceRole) :
    (requireWorkspaceRole wsId userId role).Ensures attend (fun r d' =>
      d'.office = d.office ∧ ∀ member, r = .ok member → PlatformAdmin d.office.view userId ∨
        MemberRow d.office.view wsId userId role MemberStatus.Admitted) d := by
  refine ensures_query_unwrap rfl (fun err => ⟨rfl, nofun⟩) fun user huser => ?_
  split_ifs with hadmin
  · exact ⟨rfl, fun _ _ => .inl ⟨user, getUser_eq_ok huser, hadmin⟩⟩
  · refine ensures_query_unwrap rfl (fun err => ⟨rfl, nofun⟩) fun row hrow => ?_
    have hmember := (foundRow_map_eq_ok hrow).1
    dsimp only
    split_ifs with hstatus hrole
    · exact ⟨rfl, nofun⟩
    · exact ⟨rfl, nofun⟩
    · exact ⟨rfl, fun _ _ => .inr ⟨row.1, row.2, hmember, not_or.mp hstatus, not_lt.mp hrole⟩⟩

/-- A user passes `RequireWorkspaceRole` when no call fails. -/
def Passes (db : Database) (wsId userId : String) (role : WorkspaceRole) : Prop :=
  ∃ member, ((requireWorkspaceRole wsId userId role).run attend
    { office := { db := db } }).1 = .ok member

/-- What `RequireWorkspaceRole` asks for is enough. -/
theorem passes_of_memberRow {user : User} (huser : live User.deleted db.users userId = some user)
    (h : user.systemRole = .platformAdmin ∨
      MemberRow db wsId userId role MemberStatus.Admitted) : Passes db wsId userId role := by
  have hget : (DbCall.getUser userId).apply "" db = .ok (user, db) := by
    simp [DbCall.apply, foundRow, huser, Except.map]
  unfold Passes
  rw [requireWorkspaceRole, run_query_unwrap rfl hget]
  rcases h with hadmin | ⟨key, m, hmember, hstatus, hrole⟩
  · rw [if_pos hadmin]
    exact ⟨none, rfl⟩
  · split_ifs with hadmin
    · exact ⟨none, rfl⟩
    · have hfound : (DbCall.getMembership wsId userId).apply "" db = .ok ((key, m), db) := by
        simp [DbCall.apply, foundRow, hmember, Except.map]
      rw [run_query_unwrap rfl hfound]
      dsimp only
      rw [if_neg (not_or.mpr hstatus), if_neg (not_lt.mpr hrole)]
      exact ⟨some m, rfl⟩

end

end Wireflow.Server
