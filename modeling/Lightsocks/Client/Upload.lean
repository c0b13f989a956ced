import Lightsocks.Client.Lifecycle

/-
  What becomes of the bytes an application sends.

  `Upload` records them next to a pair. At any time they are, encoded, what has left for the
  server, what is queued towards it, and what `local_readcb` has not read yet, in this order
  (`conserved_step`).

  When the application closes, `local_eventcb` releases the bufferevent towards the server
  without waiting for its queue. So what has left is a prefix of the encoded upload, and all of
  it exactly if the network was done with the queue by then (`upload_at_release`).
-/

namespace Lightsocks.Client

open Lib

/-- A pair, and what its application has sent. -/
structure Upload where
  pair : Pair
  sent : List UInt8

/-- A new connection. -/
def Upload.start : Upload := ⟨accepted, []⟩

/-- The bytes that the application sends in a delivery. -/
def Delivery.sends : Delivery → List UInt8
  | .arrive .loc data => data
  | _ => []

/-- One delivery. -/
def uploadStep (ss : SecureSocket) (u : Upload) (d : Delivery) : Option Upload :=
  (step ss u.pair d).map fun s => ⟨s, u.sent ++ d.sends⟩

/-- The bytes that have left towards the server. -/
def Upload.left (u : Upload) : List UInt8 := (u.pair.bev .remote).gone

/-- The bytes that are queued towards the server. -/
def Upload.queued (u : Upload) : List UInt8 := (u.pair.bev .remote).output

/-- The bytes of the application that have not been read. -/
def Upload.unread (u : Upload) : List UInt8 := (u.pair.bev .loc).input

/-- When the connection to the server is released, all of the upload has left. -/
def Upload.Complete (pass : Password) (u : Upload) : Prop :=
  u.pair.Released .remote → u.left = u.sent.map pass.lookup

/-- Every byte is accounted for, in order. -/
def Upload.Conserved (pass : Password) (u : Upload) : Prop :=
  u.sent.map pass.lookup = u.left ++ u.queued ++ u.unread.map pass.lookup

theorem conserved_iff {pass : Password} {t : Pair} {sent : List UInt8} :
    Upload.Conserved pass ⟨t, sent⟩ ↔ sent.map pass.lookup =
      (t.bev .remote).gone ++ (t.bev .remote).output ++ (t.bev .loc).input.map pass.lookup :=
  Iff.rfl

/-- A delivery that changes none of the three parts, and in which the application sends
    nothing. -/
theorem Upload.Conserved.of_eq {pass : Password} {u : Upload} (h : u.Conserved pass) {t : Pair}
    {data : List UInt8} (hdata : data = []) (hleft : (t.bev .remote).gone = u.left)
    (hqueued : (t.bev .remote).output = u.queued) (hunread : (t.bev .loc).input = u.unread) :
    Upload.Conserved pass ⟨t, u.sent ++ data⟩ := by
  rw [conserved_iff, hdata, List.append_nil, hleft, hqueued, hunread]
  exact h

theorem conserved_arrive {pass : Password} {u : Upload} (h : u.Conserved pass) (x : Handle)
    (data : List UInt8) : Upload.Conserved pass
      ⟨u.pair.arrive x data, u.sent ++ (Delivery.arrive x data).sends⟩ := by
  by_cases hx : x = .loc
  · rw [hx]
    have hunread : ((u.pair.arrive .loc data).bev .loc).input = u.unread ++ data := by
      rw [Bevs.bev_arrive_self]
      rfl
    have hsends : (Delivery.arrive .loc data).sends = data := rfl
    rw [conserved_iff, hunread, hsends, List.map_append, List.map_append, ← List.append_assoc,
      h, Bevs.gone_arrive, Bevs.output_arrive]
    rfl
  · refine h.of_eq ?_ (Bevs.gone_arrive ..) (Bevs.output_arrive ..) ?_
    · cases x with
      | loc => exact absurd rfl hx
      | remote => rfl
      | ctx => rfl
    · rw [Bevs.bev_arrive_of_ne _ (Ne.symm hx)]
      rfl

theorem conserved_drain {pass : Password} {u : Upload} (h : u.Conserved pass) (x : Handle)
    (n : Nat) : Upload.Conserved pass
      ⟨u.pair.drain x n, u.sent ++ (Delivery.drain x n).sends⟩ := by
  by_cases hx : x = .remote
  · rw [hx]
    have hwritten : ((u.pair.drain .remote n).bev .remote).gone ++
        ((u.pair.drain .remote n).bev .remote).output = u.left ++ u.queued :=
      Bevs.written_drain u.pair .remote n
    have hsends : (Delivery.drain .remote n).sends = [] := rfl
    rw [conserved_iff, hsends, List.append_nil, h, hwritten, Bevs.input_drain]
    rfl
  · have hbev := Bevs.bev_drain_of_ne u.pair (Ne.symm hx) n
    exact h.of_eq rfl (congrArg Bev.gone hbev) (congrArg Bev.output hbev) (Bevs.input_drain ..)

theorem conserved_localReadcb {pass : Password} {u : Upload} (h : u.Conserved pass) :
    Upload.Conserved pass
      ⟨localReadcb ⟨some pass⟩ u.pair, u.sent ++ Delivery.localReadcb.sends⟩ := by
  have e := localReadcb_effect pass u.pair
  have hqueued : ((localReadcb ⟨some pass⟩ u.pair).bev .remote).output =
      u.queued ++ u.unread.map pass.lookup := e.output
  have hsends : Delivery.localReadcb.sends = [] := rfl
  rw [conserved_iff, hsends, List.append_nil, h, e.gone, e.taken, hqueued, List.map_nil,
    List.append_nil, ← List.append_assoc]
  rfl

theorem conserved_remoteReadcb {pass : Password} {u : Upload} (h : u.Conserved pass) :
    Upload.Conserved pass
      ⟨remoteReadcb ⟨some pass⟩ u.pair, u.sent ++ Delivery.remoteReadcb.sends⟩ := by
  have e := remoteReadcb_effect pass u.pair
  exact h.of_eq rfl (e.gone _) (e.kept _ (by decide)) (e.input _ (by decide))

theorem conserved_event {pass : Password} {u : Upload} (h : u.Conserved pass) (x : Handle)
    (events : UInt16) : Upload.Conserved pass
      ⟨deliver ⟨some pass⟩ u.pair (.event x events),
        u.sent ++ (Delivery.event x events).sends⟩ := by
  have hbev : (deliver ⟨some pass⟩ u.pair (.event x events)).bev =
      (u.pair.notice x events).bev := by
    rw [deliver]
    split
    · exact bev_localEventcb ..
    · rfl
  refine h.of_eq rfl ?_ ?_ ?_
  · rw [hbev, Bevs.gone_notice]
    rfl
  · rw [hbev, Bevs.output_notice]
    rfl
  · rw [hbev, Bevs.input_notice]
    rfl

/-! ## All runs -/

/-- The invariant of an upload. -/
structure Accounted (pass : Password) (u : Upload) : Prop where
  cared : Cared u.pair
  conserved : u.Conserved pass

theorem accounted_start (pass : Password) : Accounted pass Upload.start :=
  ⟨cared_accepted, rfl⟩

theorem uploadStep_eq_some {ss : SecureSocket} {u u' : Upload} {d : Delivery} :
    uploadStep ss u d = some u' ↔
      ∃ s, step ss u.pair d = some s ∧ ⟨s, u.sent ++ d.sends⟩ = u' := by
  unfold uploadStep
  rw [Option.map_eq_some_iff]

theorem accounted_step {pass : Password} (u : Upload) (d : Delivery) (u' : Upload)
    (h : Accounted pass u) (hstep : uploadStep ⟨some pass⟩ u d = some u') :
    Accounted pass u' := by
  obtain ⟨s, hs, rfl⟩ := uploadStep_eq_some.mp hstep
  refine ⟨(cared_step h.cared hs).2.1, ?_⟩
  obtain ⟨-, rfl⟩ := step_eq_some.mp hs
  cases d with
  | arrive x data =>
      rw [deliver]
      exact conserved_arrive h.conserved x data
  | drain x n =>
      rw [deliver]
      exact conserved_drain h.conserved x n
  | localReadcb =>
      rw [deliver]
      exact conserved_localReadcb h.conserved
  | remoteReadcb =>
      rw [deliver]
      exact conserved_remoteReadcb h.conserved
  | event x events => exact conserved_event h.conserved x events

/-- Once one handle is released, nothing more happens. -/
theorem uploadStep_of_released {pass : Password} {u : Upload} (h : Accounted pass u)
    {x : Handle} (hx : u.pair.Released x) (d : Delivery) :
    uploadStep ⟨some pass⟩ u d = none := by
  rw [Option.eq_none_iff_forall_ne_some]
  intro u' hstep
  obtain ⟨s, hs, -⟩ := uploadStep_eq_some.mp hstep
  have hlive := (cared_step h.cared hs).1 x
  rw [Bevs.Live, hx] at hlive
  exact absurd hlive (by decide)

/-- **The upload at the release.** With a password, for everything an application sends, however
    it is cut, and for every order of read callbacks, drains and events: the encoded upload is at
    any time what has left, what is queued and what is unread. When the bufferevent towards the
    server is released, what has left is all of it exactly if the queue and the input were empty;
    what was in them never leaves. -/
theorem upload_at_release (pass : Password) (ds : List Delivery) {u : Upload}
    (hrun : run (uploadStep ⟨some pass⟩) Upload.start ds = some u) :
    u.sent.map pass.lookup = u.left ++ u.queued ++ u.unread.map pass.lookup ∧
      (u.Complete pass ↔ (u.pair.Released .remote → u.queued = [] ∧ u.unread = [])) ∧
      (u.pair.Released .remote → ∀ d, uploadStep ⟨some pass⟩ u d = none) := by
  have h : Accounted pass u := run_invariant accounted_step (accounted_start pass) hrun
  refine ⟨h.conserved, ?_, fun hx => uploadStep_of_released h hx⟩
  refine forall_congr' fun _ => ?_
  rw [h.conserved, List.append_assoc, List.self_eq_append_right, List.append_eq_nil_iff,
    List.map_eq_nil_iff]

/-- A byte is sent and read, and the application closes before it has left. -/
def sentAndClosed : List Delivery :=
  [.arrive .loc [0x47], .localReadcb, .event .loc bevEventEof]

theorem sentAndClosed_runs :
    ∃ u, run (uploadStep ⟨some identityPassword⟩) Upload.start sentAndClosed = some u ∧
      u.pair.Released .remote ∧ u.left = [] ∧ u.sent = [0x47] := by
  have hsome : ((run (uploadStep ⟨some identityPassword⟩) Upload.start sentAndClosed).map
      fun u => decide (u.pair.Released .remote ∧ u.left = [] ∧ u.sent = [0x47])) =
        some true := by
    decide +kernel
  obtain ⟨u, hrun, hu⟩ := Option.map_eq_some_iff.mp hsome
  exact ⟨u, hrun, of_decide_eq_true hu⟩

theorem upload_at_release_closed :
    ∃ u, run (uploadStep ⟨some identityPassword⟩) Upload.start sentAndClosed = some u ∧
      ¬ (u.queued = [] ∧ u.unread = []) := by
  obtain ⟨u, hrun, hreleased, hleft, hsent⟩ := sentAndClosed_runs
  obtain ⟨hall, -, -⟩ := upload_at_release identityPassword sentAndClosed hrun
  refine ⟨u, hrun, ?_⟩
  intro hempty
  obtain ⟨hqueued, hunread⟩ := hempty
  rw [hleft, hsent, hqueued, hunread] at hall
  exact absurd hall (by simp)

/-- The byte is lost. -/
theorem upload_truncated :
    ∃ u, run (uploadStep ⟨some identityPassword⟩) Upload.start sentAndClosed = some u ∧
      ¬ u.Complete identityPassword := by
  obtain ⟨u, hrun, hreleased, hleft, hsent⟩ := sentAndClosed_runs
  refine ⟨u, hrun, fun h => ?_⟩
  have hcomplete := h hreleased
  rw [hleft, hsent] at hcomplete
  exact absurd hcomplete (by simp)

end Lightsocks.Client
