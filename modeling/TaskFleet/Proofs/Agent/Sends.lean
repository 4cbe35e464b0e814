/-
  TaskFleet.Proofs.Agent.Sends — sends to agents that go and come back meanwhile.

  A send takes the agent's connection in its first step, stands in line for room in the mailbox of
  that connection, and delivers. If the mailbox turns out to be closed, a last step forgets the
  agent, by its name.
  - `Edits`: the only steps that change the table of the connected agents. The one of a send drops
    the connection that the send took, or one that has come in its place since (`Drops`).
  - `Sent`: what a send has done when it ends.
  - `sends_keep_to_their_connection`: both, in every interleaving.
  - `failed_send_drops_the_next_connection`: an agent that came back is forgotten again.
-/

import TaskFleet.Agent.Channel
import TaskFleet.Proofs.Dispatch.Resume
import TaskFleet.Proofs.Traces

namespace TaskFleet.Sends

open Fallible

/-! ## Calls -/

inductive RegistryCall where
  | connect (agent : String) (pool pod : Option String)
  | disconnect (agent : String)
  | heartbeat (agent : String) (status : AgentStatus)
  | send (agent : String) (message : AgentMessage)

inductive RegistryAnswer where
  | connected (r : Except AgentError Unit)
  | disconnected (was : Bool)
  | heard (r : Except AgentError Unit)
  | sent (r : Except SendError Unit)

def RegistryCall.program (process : Nat) : RegistryCall → Program World RegistryAnswer
  | connect agent pool pod => .connected <$> (Agent.connect agent pool pod).run
  | disconnect agent =>
    .disconnected <$> Program.apply fun w =>
      ((w.registry.disconnect agent).1, { w with registry := (w.registry.disconnect agent).2 })
  | heartbeat agent status => .heard <$> (Agent.heartbeat agent status).run
  | send agent message => .sent <$> (Agent.send process agent message).run

/-! ## What is said of a run -/

variable {calls : Nat → RegistryCall} {w w' : World} {i : Nat} {agent : String} {message : AgentMessage}
  {conn : Connection}
  {l l' : List (Step World)} {e : Step World}

/-- Every connection has a mailbox. -/
def Placed (r : Registry) : Prop := ∀ agent conn, r.connections.get? agent = some conn → conn.mailbox < r.mailboxes.length

/-- The process looks for the agent's connection, before it has changed anything. -/
structure Looks (i : Nat) (agent : String) (found : Option Connection) (l : List (Step World)) (e : Step World) : Prop where
  process : e.process = some i
  quiet : e.after = e.before
  found : e.before.registry.connections.get? agent = found
  first : ∀ e' ∈ l, e'.process = some i → e'.after = e'.before

/-- The process has taken this connection of the agent. -/
def Took (i : Nat) (agent : String) (conn : Connection) : List (Step World) → Prop := Sometime (Looks i agent (some conn))

/-- The process puts its message into the mailbox of the connection it took. -/
structure Delivers (i : Nat) (agent : String) (message : AgentMessage) (conn : Connection) (l : List (Step World))
    (e : Step World) : Prop where
  process : e.process = some i
  took : Took i agent conn l
  reads : (e.before.registry.mailbox conn.mailbox).closed = false
  messages : ∀ b, (e.after.registry.mailbox b).messages =
    if b = conn.mailbox then (e.before.registry.mailbox b).messages ++ [message] else (e.before.registry.mailbox b).messages

/-- The process finds the mailbox of the connection it took closed. -/
structure FindsClosed (i : Nat) (agent : String) (conn : Connection) (l : List (Step World)) (e : Step World) : Prop where
  process : e.process = some i
  took : Took i agent conn l
  closed : (e.before.registry.mailbox conn.mailbox).closed = true

/-- The agent connects, with a mailbox that no connection had before. -/
structure Connects (calls : Nat → RegistryCall) (agent : String) (l : List (Step World)) (e : Step World) : Prop where
  called : ∃ j pool pod, e.process = some j ∧ calls j = .connect agent pool pod ∧
    e.after.registry = e.before.registry.connect agent pool pod
  fresh : ∀ conn, e.after.registry.connections.get? agent = some conn →
    ∀ e' ∈ l ++ [e], ∀ other conn', e'.before.registry.connections.get? other = some conn' → conn'.mailbox ≠ conn.mailbox

/-- If the agent is connected, then by the connection with this mailbox. -/
def StillAt (agent : String) (box : Nat) (w : World) : Prop :=
  ∀ conn, w.registry.connections.get? agent = some conn → conn.mailbox = box

/-- After its send has failed, the process forgets the agent. The connection that is lost is the
    one that the send took, unless the agent has connected again since then. -/
structure Drops (calls : Nat → RegistryCall) (i : Nat) (agent : String) (conn : Connection) (l : List (Step World))
    (e : Step World) : Prop where
  process : e.process = some i
  failed : Sometime (FindsClosed i agent conn) l
  removed : e.after.registry = (e.before.registry.disconnect agent).2
  taken : StillAt agent conn.mailbox e.before ∨ Sometime (fun l e => Took i agent conn l ∧ Connects calls agent l e) l

/-- The steps that change the table of the connected agents, and what they do to it. -/
inductive Edits (calls : Nat → RegistryCall) (l : List (Step World)) (e : Step World) : Prop
  | kept : e.after.registry.connections = e.before.registry.connections → Edits calls l e
  | connected (agent : String) : Connects calls agent l e → Edits calls l e
  | disconnected (i : Nat) (agent : String) : e.process = some i → calls i = .disconnect agent →
      e.after.registry = (e.before.registry.disconnect agent).2 → Edits calls l e
  | heard (i : Nat) (agent : String) (status : AgentStatus) : e.process = some i → calls i = .heartbeat agent status →
      e.after.registry.connections = e.before.registry.connections.modify agent (fun conn => { conn with status }) →
      Edits calls l e
  | dropped (i : Nat) (agent : String) (message : AgentMessage) (conn : Connection) : calls i = .send agent message →
      Drops calls i agent conn l e → Edits calls l e

/-- What a send has done when it ends like this. -/
def Sent (calls : Nat → RegistryCall) (i : Nat) (agent : String) (message : AgentMessage) (l : List (Step World)) :
    Except SendError Unit → Prop
  | .ok () => ∃ conn, Sometime (Delivers i agent message conn) l
  | .error (.connectionClosed a) => a = agent ∧ ∃ conn, Sometime (Drops calls i agent conn) l
  | .error (.notConnected a) => a = agent ∧ Sometime (Looks i agent none) l
  | .error (.disturbed _) => False

/-- A step as it may be, and no mailbox is lost in it. -/
structure LawfulEdit (calls : Nat → RegistryCall) (l : List (Step World)) (e : Step World) : Prop where
  edits : Edits calls l e
  grows : e.before.registry.mailboxes.length ≤ e.after.registry.mailboxes.length

/-! ## Mailboxes -/

theorem connections_connect (r : Registry) (agent : String) (pool pod : Option String) :
    (r.connect agent pool pod).connections =
      r.connections.insert agent { pool, pod, mailbox := r.mailboxes.length } ∧
    (r.connect agent pool pod).mailboxes.length = r.mailboxes.length + 1 := by
  unfold Registry.connect Registry.hangUp
  cases r.inboxes.get? agent with
  | none => exact ⟨rfl, by simp⟩
  | some b => simp [Registry.modifyMailbox]

theorem connections_disconnect {r : Registry} {other : String}
    (h : (r.disconnect agent).2.connections.get? other = some conn) : r.connections.get? other = some conn := by
  simp only [Registry.disconnect, Table.get?_erase] at h
  split at h
  · cases h
  · exact h

theorem connections_heard {table : Table Connection} {other : String} {status : AgentStatus}
    (h : (table.modify agent fun conn => { conn with status }).get? other = some conn) :
    ∃ conn', table.get? other = some conn' ∧ conn'.mailbox = conn.mailbox := by
  rw [Table.get?_modify] at h
  split at h
  · obtain ⟨conn', hconn', rfl⟩ := Option.map_eq_some_iff.1 h
    exact ⟨conn', hconn', rfl⟩
  · exact ⟨conn, h, rfl⟩

/-- A connection has the mailbox that it had before the step, unless its agent connects in it. -/
theorem Edits.mailbox (h : Edits calls l e) (hconn : e.after.registry.connections.get? agent = some conn) :
    (∃ conn', e.before.registry.connections.get? agent = some conn' ∧ conn'.mailbox = conn.mailbox) ∨
      Connects calls agent l e := by
  cases h with
  | kept hkept => exact .inl ⟨conn, hkept ▸ hconn, rfl⟩
  | connected other hother =>
    by_cases hagent : other = agent
    · exact .inr (hagent ▸ hother)
    · obtain ⟨j, pool, pod, -, -, hafter⟩ := hother.called
      rw [hafter, (connections_connect _ _ _ _).1, Table.get?_insert_of_ne _ _ hagent] at hconn
      exact .inl ⟨conn, hconn, rfl⟩
  | disconnected j other _ _ hafter => exact .inl ⟨conn, connections_disconnect (hafter ▸ hconn), rfl⟩
  | heard j other status _ _ hafter => exact .inl (connections_heard (hafter ▸ hconn))
  | dropped j other message taken _ hdrops => exact .inl ⟨conn, connections_disconnect (hdrops.removed ▸ hconn), rfl⟩

theorem LawfulEdit.placed (h : LawfulEdit calls l e) (hplaced : Placed e.before.registry) : Placed e.after.registry := by
  intro agent conn hconn
  rcases h.edits.mailbox hconn with ⟨conn', hbefore, hsame⟩ | hconnects
  · exact hsame ▸ Nat.lt_of_lt_of_le (hplaced agent conn' hbefore) h.grows
  · obtain ⟨j, pool, pod, -, -, hafter⟩ := hconnects.called
    obtain ⟨hconnections, hlength⟩ := connections_connect e.before.registry agent pool pod
    rw [hafter, hconnections, Table.get?_insert_self] at hconn
    cases hconn
    rw [hafter, hlength]
    exact Nat.lt_succ_self _

/-! ## The discipline -/

/-- Only the process itself changes anything in its own name. -/
def Fair (i : Nat) (e : Step World) : Prop := e.process = some i → e.after = e.before

theorem fair_idle (i j : Nat) (s : World) : Fair j ⟨some i, s, s⟩ := fun _ => rfl

variable (calls w) in
def sending : Discipline World (List (Step World)) :=
  .accounting w (fun _ => True) (LawfulEdit calls) Fair (fun _ _ _ => ⟨.kept rfl, Nat.le_refl _⟩) fair_idle

/-- What happens outside: mailboxes are read, filled and closed, and the rest of the world changes
    in any way, but nobody is connected or forgotten. -/
inductive OutsideSends (c : Scene World (List (Step World))) : Scene World (List (Step World)) → Prop
  | surroundings (w : World) : w.registry.connections = c.state.registry.connections →
      c.state.registry.mailboxes.length ≤ w.registry.mailboxes.length →
        OutsideSends c ⟨w, c.memory ++ [⟨none, c.state, w⟩]⟩

/-- The calls begin, each with its number. -/
inductive BeginsRegistryCall (calls : Nat → RegistryCall) (c : Scene World (List (Step World))) :
    Nat → Program World RegistryAnswer → Scene World (List (Step World)) → Prop
  | call (i : Nat) : BeginsRegistryCall calls c i ((calls i).program i) c

variable {c : Scene World (List (Step World))}

theorem stable_true : (sending calls w).Stable i fun _ => True := fun _ _ _ _ => trivial

theorem stable_sometime (P : List (Step World) → Step World → Prop) :
    (sending calls w).Stable i fun c => Sometime P c.memory := by
  rintro c d h ⟨l, hl, -⟩
  rw [hl]
  exact h.append l

theorem keeps_step (hi : (sending calls w).Inv c) (hedits : Edits calls c.memory ⟨some i, c.state, w'⟩)
    (hgrows : c.state.registry.mailboxes.length ≤ w'.registry.mailboxes.length) :
    (sending calls w).Keeps i c ⟨w', c.memory ++ [⟨some i, c.state, w'⟩]⟩ :=
  Discipline.keeps_accounting hi trivial ⟨hedits, hgrows⟩ fun _ hj hi => absurd (Option.some.inj hi) hj.symm

/-- A step of a call that leaves the agents alone. -/
theorem keeps_sameRegistry (hi : (sending calls w).Inv c) (h : w'.registry = c.state.registry) :
    (sending calls w).Keeps i c ⟨w', c.memory ++ [⟨some i, c.state, w'⟩]⟩ :=
  keeps_step hi (.kept (congrArg Registry.connections h)) (Nat.le_of_eq (by rw [h]))

theorem leads_editCapacity {f : Capacity → UInt64 → Except CapacityError Capacity} :
    (sending calls w).Leads i (Program.editCapacity f) (fun _ _ => True) c := by
  refine Discipline.leads_apply stable_true (fun _ => stable_true) (fun d hi _ => ⟨keeps_sameRegistry hi ?_, trivial⟩) trivial
  dsimp only
  split <;> rfl

/-! ## Connecting -/

/-- All connections there have been had mailboxes that are still there. -/
theorem lt_of_memory (hplaced : Placed w.registry) (hi : (sending calls w).Inv c) (he : e ∈ c.memory)
    (hconn : e.before.registry.connections.get? agent = some conn) : conn.mailbox < c.state.registry.mailboxes.length := by
  have hsound : ∀ e ∈ c.memory, ∃ l, LawfulEdit calls l e := fun e he => by
    obtain ⟨l₁, l₂, hl⟩ := List.append_of_mem he
    exact ⟨l₁, hi.steps l₁ e l₂ hl⟩
  have hbefore : Placed e.before.registry :=
    hi.chain.before (P := fun w => Placed w.registry) (fun e he => (hsound e he).choose_spec.placed) hplaced e he
  obtain ⟨l₁, l₂, hl⟩ := List.append_of_mem he
  obtain ⟨-, hsince⟩ := (hl ▸ hi.chain).split
  refine hsince.preserves (P := fun w => conn.mailbox < w.registry.mailboxes.length) (fun e' he' h => ?_) ?_
  · exact Nat.lt_of_lt_of_le h (hsound e' (by simp [hl, he'])).choose_spec.grows
  · exact Nat.lt_of_lt_of_le (hbefore agent conn hconn) (hsound e he).choose_spec.grows

theorem placed_of_inv (hplaced : Placed w.registry) (hi : (sending calls w).Inv c) : Placed c.state.registry := by
  refine hi.chain.preserves (P := fun w => Placed w.registry) (fun e he => ?_) hplaced
  obtain ⟨l₁, l₂, hl⟩ := List.append_of_mem he
  exact (hi.steps l₁ e l₂ hl).placed

theorem connects_of_connect {pool pod : Option String} (hplaced : Placed w.registry) (hi : (sending calls w).Inv c)
    (hcall : calls i = .connect agent pool pod) :
    Connects calls agent c.memory
      ⟨some i, c.state, { c.state with registry := c.state.registry.connect agent pool pod }⟩ := by
  refine ⟨⟨i, pool, pod, rfl, hcall, rfl⟩, fun conn hconn e' he' other conn' hconn' => ?_⟩
  simp only [(connections_connect _ _ _ _).1, Table.get?_insert_self] at hconn
  cases hconn
  refine Nat.ne_of_lt ?_
  rcases List.mem_append.1 he' with he' | he'
  · exact lt_of_memory hplaced hi he' hconn'
  · rw [List.mem_singleton.1 he'] at hconn'
    exact placed_of_inv hplaced hi other conn' hconn'

theorem leads_connect {pool pod : Option String} (hplaced : Placed w.registry) (hcall : calls i = .connect agent pool pod) :
    (sending calls w).Leads i (Agent.connect agent pool pod).run (fun _ _ => True) c := by
  have hlast : ∀ d, (sending calls w).Leads i
      (always (ε := AgentError) (Program.modify fun w => { w with registry := w.registry.connect agent pool pod })).run
      (fun _ _ => True) d := fun d => by
    refine Discipline.Leads.always (Discipline.leads_modify stable_true stable_true (fun d hi _ => ⟨?_, trivial⟩) trivial)
    refine keeps_step hi (.connected agent (connects_of_connect hplaced hi hcall)) ?_
    rw [(connections_connect _ _ _ _).2]
    exact Nat.le_succ _
  unfold Agent.connect
  cases pod with
  | none => exact hlast c
  | some pod =>
    refine Discipline.Leads.bind_run (R := fun _ _ => True) ?_ (fun _ d _ => hlast d) fun _ _ _ => trivial
    exact Discipline.Leads.bind leads_editCapacity fun _ _ _ => Discipline.leads_pure fun _ _ => trivial

theorem leads_disconnect (hcall : calls i = .disconnect agent) :
    (sending calls w).Leads i (Program.apply fun w =>
      ((w.registry.disconnect agent).1, { w with registry := (w.registry.disconnect agent).2 })) (fun _ _ => True) c :=
  Discipline.leads_apply stable_true (fun _ => stable_true)
    (fun _ hi _ => ⟨keeps_step hi (.disconnected i agent rfl hcall rfl) (Nat.le_refl _), trivial⟩) trivial

theorem leads_heartbeat {status : AgentStatus} (hcall : calls i = .heartbeat agent status) :
    (sending calls w).Leads i (Agent.heartbeat agent status).run (fun _ _ => True) c := by
  unfold Agent.heartbeat
  refine Discipline.Leads.always_bind (R := fun _ _ => True) (Discipline.leads_apply stable_true (fun _ => stable_true)
    (fun d hi _ => ⟨keeps_step hi (.heard i agent status rfl hcall rfl) (Nat.le_refl _), trivial⟩) trivial) fun found _ _ => ?_
  cases found with
  | none => exact Discipline.leads_pure fun _ _ => trivial
  | some conn =>
    cases hpod : conn.pod with
    | none =>
      simp only [hpod]
      exact Discipline.leads_pure fun _ _ => trivial
    | some pod =>
      simp only [hpod]
      exact Discipline.Leads.bind leads_editCapacity fun _ _ _ => Discipline.leads_pure fun _ _ => trivial

/-! ## Sending -/

/-- What came in the place of a connection came by a connect. -/
theorem stillAt_or_connected (hi : (sending calls w).Inv c) (htook : Took i agent conn c.memory) :
    StillAt agent conn.mailbox c.state ∨ Sometime (fun l e => Took i agent conn l ∧ Connects calls agent l e) c.memory := by
  obtain ⟨l₁, look, l₂, hl, hlook⟩ := htook
  refine Classical.or_iff_not_imp_left.2 fun hother => ?_
  have hsince : Chain look.after l₂ c.state := (hl ▸ hi.chain).split.2
  have hthen : StillAt agent conn.mailbox look.after := fun conn' hconn' => by
    rw [hlook.quiet, hlook.found] at hconn'
    cases hconn'
    rfl
  obtain ⟨m₁, e, m₂, rfl, hbefore, hafter, -⟩ := hsince.lost hthen hother
  have hcut : c.memory = (l₁ ++ look :: m₁) ++ e :: m₂ := by simp [hl]
  refine ⟨l₁ ++ look :: m₁, e, m₂, hcut, ⟨l₁, look, m₁, rfl, hlook⟩, ?_⟩
  obtain ⟨conn', hconn', hne⟩ : ∃ conn', e.after.registry.connections.get? agent = some conn' ∧
      conn'.mailbox ≠ conn.mailbox :=
    Classical.byContradiction fun hnone => hafter fun conn' hconn' =>
      Classical.byContradiction fun hne => hnone ⟨conn', hconn', hne⟩
  rcases (hi.steps _ e m₂ hcut).edits.mailbox hconn' with ⟨conn'', hconn'', hsame⟩ | hconnects
  · exact absurd (hsame ▸ hbefore conn'' hconn'') hne
  · exact hconnects

/-- What a send knows when its turn has come and gone. -/
def Tried (i : Nat) (agent : String) (message : AgentMessage) (conn : Connection) (delivered : Bool)
    (c : Scene World (List (Step World))) : Prop :=
  if delivered then Sometime (Delivers i agent message conn) c.memory else Sometime (FindsClosed i agent conn) c.memory

theorem stable_tried (delivered : Bool) : (sending calls w).Stable i (Tried i agent message conn delivered) := by
  cases delivered
  · exact stable_sometime _
  · exact stable_sometime _

theorem stable_sent (r : Except SendError Unit) :
    (sending calls w).Stable i fun c => Sent calls i agent message c.memory r := by
  intro c d h hr
  cases r with
  | ok u =>
    obtain ⟨conn, h⟩ := h
    exact ⟨conn, stable_sometime _ c d h hr⟩
  | error error =>
    cases error with
    | connectionClosed a =>
      obtain ⟨ha, conn, h⟩ := h
      exact ⟨ha, conn, stable_sometime _ c d h hr⟩
    | notConnected a => exact ⟨h.1, stable_sometime _ c d h.2 hr⟩
    | disturbed reason => exact h.elim

/-- The process has not changed anything yet. -/
def Untouched (i : Nat) (l : List (Step World)) : Prop := ∀ e ∈ l, Fair i e

theorem stable_untouched : (sending calls w).Stable i fun c => Untouched i c.memory := by
  rintro c d h ⟨l, hl, -, hfair⟩ e he
  rw [hl] at he
  rcases List.mem_append.1 he with he | he
  · exact h e he
  · exact hfair e he

theorem leads_look (h : Untouched i c.memory) :
    (sending calls w).Leads i (Program.get (·.registry.connections.get? agent))
      (fun found d => Sometime (Looks i agent found) d.memory) c :=
  Discipline.leads_get stable_untouched (fun _ => stable_sometime _)
    (fun _ _ h => sometime_now ⟨rfl, rfl, rfl, h⟩) h

theorem leads_deliver (h : Took i agent conn c.memory) :
    (sending calls w).Leads i (Program.apply fun w =>
        let (delivered, b) := (w.registry.mailbox conn.mailbox).deliver i message
        (delivered, { w with registry := w.registry.modifyMailbox conn.mailbox fun _ => b }))
      (Tried i agent message conn) c := by
  refine Discipline.leads_apply (F := fun c => Took i agent conn c.memory) (stable_sometime _) stable_tried
    (fun d hi htook => ⟨?_, ?_⟩) h
  · exact keeps_step hi (.kept rfl) (Nat.le_of_eq (List.length_modify _ _ _).symm)
  · cases hclosed : (d.state.registry.mailbox conn.mailbox).closed with
    | true =>
      have hdeliver : ((d.state.registry.mailbox conn.mailbox).deliver i message).1 = false := by
        simp [Mailbox.deliver, hclosed]
      simp only [hdeliver]
      exact sometime_now ⟨rfl, htook, hclosed⟩
    | false =>
      have hdeliver := Mailbox.deliver_of_open hclosed i message
      simp only [hdeliver]
      refine sometime_now ⟨rfl, htook, hclosed, fun b => ?_⟩
      simp only [hdeliver, Registry.mailbox_modifyMailbox (Registry.lt_of_open hclosed)]
      split
      · next hb => rw [hb]
      · rfl

theorem leads_drop (hcall : calls i = .send agent message) (h : Sometime (FindsClosed i agent conn) c.memory) :
    (sending calls w).Leads i (Program.modify fun w => { w with registry := (w.registry.disconnect agent).2 })
      (fun _ d => Sometime (Drops calls i agent conn) d.memory) c := by
  refine Discipline.leads_modify (F := fun c => Sometime (FindsClosed i agent conn) c.memory) (stable_sometime _)
    (stable_sometime _) (fun d hi h => ?_) h
  have htook : Took i agent conn d.memory := by
    obtain ⟨l₁, e, l₂, hl, he⟩ := h
    rw [hl]
    exact he.took.append _
  have hdrops : Drops calls i agent conn d.memory
      ⟨some i, d.state, { d.state with registry := (d.state.registry.disconnect agent).2 }⟩ :=
    ⟨rfl, h, rfl, stillAt_or_connected hi htook⟩
  exact ⟨keeps_step hi (.dropped i agent message conn hcall hdrops) (Nat.le_refl _), sometime_now hdrops⟩

theorem leads_send (hcall : calls i = .send agent message) (h : Untouched i c.memory) :
    (sending calls w).Leads i (Agent.send i agent message).run (fun r d => Sent calls i agent message d.memory r) c := by
  unfold Agent.send
  refine Discipline.Leads.always_bind (leads_look h) fun found c hlooked => ?_
  cases found with
  | none => exact Discipline.leads_pure fun d hr => ⟨rfl, stable_sometime _ c d hlooked hr⟩
  | some conn =>
    have hstable : (sending calls w).Stable i fun c => Took i agent conn c.memory := stable_sometime _
    refine Discipline.Leads.always_bind (Discipline.leads_modify hstable hstable (fun d hi htook => ⟨?_, htook.append _⟩)
      hlooked) fun _ c htook => ?_
    · exact keeps_step hi (.kept rfl) (Nat.le_of_eq (List.length_modify _ _ _).symm)
    refine Discipline.Leads.always_bind (Discipline.leads_waitFor hstable hstable (fun _ _ htook _ => htook) htook)
      fun _ c htook => ?_
    refine Discipline.Leads.always_bind (leads_deliver htook) fun delivered c htried => ?_
    cases delivered with
    | true => exact Discipline.leads_pure fun d hr => ⟨conn, stable_sometime _ c d htried hr⟩
    | false =>
      refine Discipline.Leads.always_bind (leads_drop hcall htried) fun _ c hdropped => ?_
      exact Discipline.leads_pure fun d hr => ⟨rfl, conn, stable_sometime _ c d hdropped hr⟩

/-! ## All calls -/

/-- If the call is a send, it has ended like this. -/
def Ended (calls : Nat → RegistryCall) (i : Nat) (answer : RegistryAnswer) (l : List (Step World)) : Prop :=
  ∀ agent message r, calls i = .send agent message → answer = .sent r → Sent calls i agent message l r

theorem leads_program (hplaced : Placed w.registry) (h : Untouched i c.memory) :
    (sending calls w).Leads i ((calls i).program i) (fun answer d => Ended calls i answer d.memory) c := by
  have hother : ∀ {α : Type} {p : Program World α} {f : α → RegistryAnswer} {d},
      (∀ agent message, calls i ≠ .send agent message) →
      (sending calls w).Leads i p (fun _ _ => True) d →
      (sending calls w).Leads i (f <$> p) (fun answer d => Ended calls i answer d.memory) d := by
    intro α p f d hnot hp
    rw [map_eq_pure_bind]
    exact hp.bind fun _ _ _ => Discipline.leads_pure fun _ _ agent message _ hcall => absurd hcall (hnot agent message)
  cases hcall : calls i with
  | connect agent pool pod => exact hother (by rw [hcall]; nofun) (leads_connect hplaced hcall)
  | disconnect agent => exact hother (by rw [hcall]; nofun) (leads_disconnect hcall)
  | heartbeat agent status => exact hother (by rw [hcall]; nofun) (leads_heartbeat hcall)
  | send agent message =>
    show (sending calls w).Leads i (RegistryAnswer.sent <$> (Agent.send i agent message).run) _ c
    rw [map_eq_pure_bind]
    refine (leads_send hcall h).bind fun r c hsent => Discipline.leads_pure fun d hr agent' message' r' hcall' hr' => ?_
    rw [hcall] at hcall'
    cases hcall'
    cases hr'
    exact stable_sent r c d hsent hr

theorem keeping (hplaced : Placed w.registry) :
    (sending calls w).Keeping OutsideSends
      (fun c i p d => BeginsRegistryCall calls c i p d ∧ ∀ e ∈ c.memory, e.process ≠ some i) ⟨w, []⟩
      (fun i answer d => ∀ a, answer = .ok a → Ended calls i a d.memory) where
  first := Discipline.accounted_first trivial
  outside c d hc h := by
    obtain ⟨w', hconnections, hgrows⟩ := h
    exact ⟨hc.step trivial ⟨.kept hconnections, hgrows⟩, fun j => Discipline.rely_accounting nofun⟩
  begins c i p d hc h := by
    obtain ⟨⟨i⟩, hnew⟩ := h
    exact ⟨⟨hc, fun j _ => Discipline.rely_refl _ j c⟩, leads_program hplaced fun e he hi => absurd hi (hnew e he)⟩

/-- Agents that connect, disconnect and report beside sends to them: a send that succeeds has put its
    message into the mailbox of the connection that was the agent's when the send began. One that
    fails at a closed connection found the mailbox of that connection closed and has forgotten the
    agent; that drops no other connection than the one it took, unless the agent has connected again
    since. Only connects, disconnects and failed sends change which connection an agent has. -/
theorem sends_keep_to_their_connection {calls : Nat → RegistryCall} {w : World} {c : Scene World (List (Step World))}
    {crew : List (Program World RegistryAnswer)} (hplaced : Placed w.registry)
    (hrun : (sending calls w).Run OutsideSends (BeginsRegistryCall calls) ⟨w, []⟩ c crew) :
    Throughout (Edits calls) c.memory ∧ ∀ i agent message r, calls i = .send agent message →
      crew[i]? = some (.done (.sent r)) → Sent calls i agent message c.memory r := by
  have hnumbered := (hrun.numbered rfl (fun _ _ _ _ => rfl) (fun c d h => by obtain ⟨w'⟩ := h; rfl)
    fun c i p d h => by obtain ⟨i⟩ := h; rfl).1
  refine ⟨fun l₁ e l₂ hl => ((hnumbered.sound (keeping hplaced)).1.steps l₁ e l₂ hl).edits, ?_⟩
  exact fun i agent message r hcall hend => hnumbered.ended (keeping hplaced) hend _ rfl agent message r hcall rfl

/-! ## Runs -/

abbrev RunsTo (calls : Nat → RegistryCall) (w : World) :
    Scene World (List (Step World)) → List (Program World RegistryAnswer) → Prop :=
  (sending calls w).Run OutsideSends (BeginsRegistryCall calls) ⟨w, []⟩

/-- An agent connects and is sent a task. -/
def oneSend : Nat → RegistryCall
  | 0 => .connect "agent" none none
  | _ => .send "agent" ⟨1, "ws", .plan⟩

theorem sends_keep_to_their_connection_one_send :
    Placed emptyWorld.registry ∧ ∃ c, RunsTo oneSend emptyWorld c [.done (.connected (.ok ())), .done (.sent (.ok ()))] ∧
      ∃ conn, Sometime (Delivers 1 "agent" ⟨1, "ws", .plan⟩ conn) c.memory := by
  have hplaced : Placed emptyWorld.registry := nofun
  have hstart : RunsTo oneSend emptyWorld ⟨emptyWorld, []⟩ [] := .start
  have hrun := (hstart.begun (.call 0) 10).begun (.call 1) 10
  exact ⟨hplaced, _, hrun, (sends_keep_to_their_connection hplaced hrun).2 1 "agent" _ (.ok ()) rfl rfl⟩

/-- An agent that has not read the sixteen messages in its mailbox. -/
def behind : World :=
  { clock := 0
    registry := (({} : Registry).connect "agent" none none).modifyMailbox 0 fun b =>
      { b with messages := List.replicate 16 ⟨1, "ws", .plan⟩ } }

/-- It is sent one more, and connects again. -/
def comesBack : Nat → RegistryCall
  | 0 => .send "agent" ⟨2, "ws", .apply⟩
  | _ => .connect "agent" none none

/-- The send stands in line. -/
def inLine : Program World RegistryAnswer × Scene World (List (Step World)) :=
  (sending comesBack behind).carry 0 10 ((comesBack 0).program 0) ⟨behind, []⟩

/-- The agent has a new connection. -/
def back : Program World RegistryAnswer × Scene World (List (Step World)) :=
  (sending comesBack behind).carry 1 10 ((comesBack 1).program 1) inLine.2

/-- The send has gone on. -/
def failedLate : Program World RegistryAnswer × Scene World (List (Step World)) :=
  (sending comesBack behind).carry 0 10 inLine.1 back.2

/-- A send waits for room at the old connection of an agent, with the mailbox 0, when the agent
    connects again, with the mailbox 1. The send fails and forgets the agent, which goes on reading
    that mailbox. -/
theorem failed_send_drops_the_next_connection :
    Took 0 "agent" ⟨none, none, {}, 0⟩ inLine.2.memory ∧ (inLine.2.state.registry.mailbox 0).hasTurn 0 = false ∧
      RunsTo comesBack behind back.2 [inLine.1, .done (.connected (.ok ()))] ∧
      back.2.state.registry.connections.get? "agent" = some ⟨none, none, {}, 1⟩ ∧
      RunsTo comesBack behind failedLate.2 [.done (.sent (.error (.connectionClosed "agent"))), .done (.connected (.ok ()))] ∧
      failedLate.2.state.registry.connections.get? "agent" = none ∧
      (failedLate.2.state.registry.mailbox 1).closed = false := by
  have hlooked : Took 0 "agent" ⟨none, none, {}, 0⟩ inLine.2.memory :=
    ⟨[], ⟨some 0, behind, behind⟩, inLine.2.memory.tail, rfl, rfl, rfl, rfl, fun _ he => absurd he List.not_mem_nil⟩
  have hstart : RunsTo comesBack behind ⟨behind, []⟩ [] := .start
  have hback : RunsTo comesBack behind back.2 [inLine.1, back.1] := (hstart.begun (.call 0) 10).begun (.call 1) 10
  have hfailed : RunsTo comesBack behind failedLate.2 [failedLate.1, back.1] := hback.carry (i := 0) (p := inLine.1) rfl 10
  exact ⟨hlooked, rfl, hback, rfl, hfailed, rfl, rfl⟩

end TaskFleet.Sends
