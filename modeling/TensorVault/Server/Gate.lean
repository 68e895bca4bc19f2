import TensorVault.Server.Trace

/-!
# The authentication gate

What a client can make the server do before `verify_scram` has accepted it. The startup returns
after an accepted exchange, and also after a CancelRequest, and then the message loop takes
statements from a client that has not even said who it is (`gated_of_not_cancelled`).
-/

namespace TensorVault.Server

open Proc List

/-- Every statement that is executed comes after an accepted exchange. -/
def Gated (log : List Event) : Prop :=
  ∀ pre ev rest, log = pre ++ ev :: rest → ev.acts = true → ∃ username, .verified username ∈ pre

/-- The packet that ends the startup, the first that is no request for TLS, and what follows. -/
def lastPacketLoop : Nat → List UInt8 → Option (List UInt8 × List UInt8)
  | 0, _ => none
  | fuel + 1, input =>
    match readPacket input with
    | (.error _, _) => none
    | (.ok body, rest) =>
      if packetMagic body = sslRequestMagic ∨ packetMagic body = gssapiRequestMagic then
        lastPacketLoop fuel rest
      else some (body, rest)

def lastPacket (input : List UInt8) : Option (List UInt8 × List UInt8) :=
  lastPacketLoop input.length input

/-- The startup ends with a CancelRequest. -/
def cancelled (input : List UInt8) : Prop :=
  (lastPacket input).map (packetMagic ·.1) = some cancelRequestMagic

instance (input : List UInt8) : Decidable (cancelled input) := by
  unfold cancelled
  infer_instance

section Gate

variable {σ δ : Type} [DecidableEq δ] (S : Services σ δ) {readFinal : Handler σ (List UInt8)}
  {w : World σ} {username : String} {log : List Event}

/-- An event of the startup. -/
abbrev Event.NotActing (ev : Event) : Prop := ev.acts = false

/-- The log has an accepted exchange. -/
def Verified (w : World σ) : Prop := ∃ username, .verified username ∈ w.log

theorem Verified.of_adds {p : Event → Prop} {w w' : World σ} (h : Verified w)
    (hadds : Adds p w w') : Verified w' := by
  obtain ⟨username, hmem⟩ := h
  obtain ⟨added, hlog, -⟩ := hadds
  exact ⟨username, hlog ▸ mem_append_left _ hmem⟩

/-! ## The exchange -/

/-- The exchange only returns after `verify_scram` has. -/
theorem finishScram_verified {bare server : String} {cred : StoredCredential δ} :
    wp (finishScram S readFinal username bare server cred) (fun _ => Verified) (fun _ _ => True)
      w := by
  unfold finishScram
  rw [wp_bind]
  refine wp_any (fun final w₁ => ?_) fun _ _ => trivial
  split
  · exact wp_reject.mpr trivial
  split
  · next signature _ =>
    rw [wp_bind, record, wp_modify]
    have hkeeps : Keeps (Adds fun _ => True) (do
        send (.authenticationSaslFinal ("v=" ++ signature))
        sendAuthOkAndParams : Handler σ Unit) :=
      (Adds.frame fun _ => trivial).closed.bind ((Adds.frame fun _ => trivial).closed.send _)
        fun _ => (Adds.frame fun _ => trivial).closed.sendAuthOkAndParams
    have hverified : Verified { w₁ with log := w₁.log ++ [.verified username] } :=
      ⟨username, mem_append_right _ mem_cons_self⟩
    exact wp_mono (hkeeps.wp _) (fun _ _ h => hverified.of_adds h) fun _ _ _ => trivial
  · exact wp_reject.mpr trivial

theorem scramAuth_verified {readInitial : Handler σ (Option (String × List UInt8))} :
    wp (scramAuth S readInitial readFinal) (fun _ => Verified) (fun _ _ => True) w := by
  unfold scramAuth
  rw [wp_bind]
  refine wp_any (fun _ w₁ => ?_) fun _ _ => trivial
  rw [wp_bind]
  refine wp_any (fun init w₂ => ?_) fun _ _ => trivial
  split
  · exact wp_reject.mpr trivial
  split
  · unfold answerClientFirst
    simp only
    split
    · exact wp_reject.mpr trivial
    · rw [wp_bind]
      refine wp_any (fun cred w₃ => ?_) fun _ _ => trivial
      split
      · exact wp_reject.mpr trivial
      · rw [wp_bind]
        refine wp_any (fun nonce w₄ => ?_) fun _ _ => trivial
        rw [wp_bind]
        exact wp_any (fun _ w₅ => finishScram_verified S) fun _ _ => trivial
  · exact wp_reject.mpr trivial

/-- Sending is not acting. -/
theorem silent : Frame (Adds Event.NotActing : World σ → World σ → Prop) := Adds.frame fun _ => rfl

theorem doScramAuth_adds : Keeps (Adds Event.NotActing) (doScramAuth S) :=
  silent.closed.scramAuth S adds_call (fun _ => adds_record rfl)
    (silent.closed.bind silent.keeps_receive fun _ => silent.closed.decodeBody)
    silent.keeps_receive

/-! ## The startup -/

/-- No statement is executed during the startup. -/
theorem startupLoop_adds {n : Nat} : Keeps (Adds Event.NotActing) (startupLoop S n) := by
  induction n with
  | zero => exact silent.keeps_stop
  | succ n ih =>
    refine silent.closed.bind silent.keeps_receive fun body => ?_
    simp only
    split
    · exact silent.closed.bind (silent.closed.send _) fun _ => ih
    split
    · exact silent.closed.pure ()
    split
    · refine silent.closed.bind (silent.closed.setSession _) fun _ => ?_
      split
      · exact doScramAuth_adds S
      · exact silent.closed.sendAuthOkAndParams
    · exact silent.closed.reject

/-- The startup returns after an accepted exchange, or after a CancelRequest. -/
theorem startupLoop_verified (hauth : S.authRequired = true) (n : Nat) (w : World σ) :
    wp (startupLoop S n)
      (fun _ w' => Verified w' ∨
        (lastPacketLoop n w.input).map (packetMagic ·.1) = some cancelRequestMagic)
      (fun _ _ => True) w := by
  induction n generalizing w with
  | zero =>
    unfold startupLoop
    rw [wp_stop]
    trivial
  | succ n ih =>
    unfold startupLoop
    rw [wp_bind, wp_receive]
    refine wp_of_forall (fun body rest hread => ?_) fun _ _ _ => trivial
    simp only [lastPacketLoop, hread]
    split
    · rw [wp_bind, wp_send]
      exact ih { w with input := rest, log := w.log ++ [.sent .sslRefused] }
    split
    · next hcancel =>
      rw [wp_pure]
      exact .inr (congrArg some hcancel)
    split
    · rw [wp_bind]
      refine wp_any (fun _ w₁ => ?_) fun _ _ => trivial
      exact wp_mono (scramAuth_verified S) (fun _ _ h => .inl h) fun _ _ h => h
    · exact wp_reject.mpr trivial

/-! ## The whole connection -/

theorem gated_of_notActing (h : ∀ ev ∈ log, ev.NotActing) : Gated log := by
  rintro pre ev rest rfl hacts
  have hev : ev.acts = false := h ev (by simp)
  cases hev.symm.trans hacts

/-- Behind an accepted exchange everything may happen. -/
theorem gated_append {added : List Event} (h : ∀ ev ∈ log, ev.NotActing)
    (hverified : .verified username ∈ log) : Gated (log ++ added) := by
  intro pre ev rest heq hacts
  rcases append_eq_append_iff.mp heq with ⟨more, hpre, -⟩ | ⟨more, hlog, hrest⟩
  · exact ⟨username, hpre ▸ mem_append_left _ hverified⟩
  · cases more with
    | nil =>
      rw [append_nil] at hlog
      exact ⟨username, hlog ▸ hverified⟩
    | cons x more =>
      rw [cons_append] at hrest
      cases hrest
      have hev : ev.acts = false := h ev (by simp [hlog])
      cases hev.symm.trans hacts

/-- **The gate.** If the startup does not end with a CancelRequest, no statement of the connection
reaches the engine and no user is changed before `verify_scram` has accepted the client. -/
theorem gated_of_not_cancelled (hauth : S.authRequired = true) (shared : σ) (input : List UInt8)
    (hcancel : ¬ cancelled input) : Gated (connection S shared input).2.log := by
  refine wp_state.mp
    (show wp (runLoop S) (fun _ w => Gated w.log) (fun _ w => Gated w.log) _ from ?_)
  unfold runLoop handleStartup
  simp only [wp_bind, wp_get, wp_stop]
  have hstart : ∀ {w : World σ}, Adds Event.NotActing (.start shared input) w →
      ∀ ev ∈ w.log, ev.NotActing := by
    rintro w ⟨added, hlog, hadded⟩
    rwa [hlog, World.start, nil_append]
  refine wp_mono (wp_and ((startupLoop_adds S).wp (.start shared input))
    (startupLoop_verified S hauth _ _)) (fun _ w₁ => ?_) fun _ w₁ h => ?_
  · rintro ⟨hadds, ⟨username, hmem⟩ | hlast⟩
    · have hmore := ((Adds.actingFrame (p := fun _ => True) S (fun _ => trivial)
        (fun _ => trivial) fun _ => trivial).keeps_handleMessages (messages w₁.input).1).wp w₁
      refine wp_mono hmore (fun _ w₂ h => ?_) fun _ w₂ h => ?_
      all_goals
        obtain ⟨added, hlog, -⟩ := h
        rw [hlog]
        exact gated_append (hstart hadds) hmem
    · exact absurd hlast hcancel
  · exact gated_of_notActing (hstart h.1)

end Gate

/-! ## Two streams -/

/-- Services that know no user and answer every statement with an empty result. -/
def Services.bare (authRequired : Bool) : Services Unit Unit where
  host := .ascii
  authRequired := authRequired
  overflowChecks := false
  primitives :=
    { stretch := fun _ _ _ => (), mac := fun _ _ => (), hash := id, xor := fun _ _ => (),
      toBytes := fun _ => [], ofBytes := fun _ => some (), base64 := .standard }
  tryReadonlySelect _ _ := some ((), .ok .empty)
  execute _ _ := some ((), .ok .empty)
  getUser _ _ := ((), none)
  createUser _ _ _ := ()
  dropUser _ _ := ((), false)
  serverNonce _ := ((), .letters)

/-- The message `Q` with the text `SELECT 1`. -/
def selectMessage : List UInt8 :=
  [0x51, 0, 0, 0, 13, 0x53, 0x45, 0x4C, 0x45, 0x43, 0x54, 0x20, 0x31, 0]

/-- A startup packet of version 3.0 without parameters. -/
def plainStartup : List UInt8 := [0, 0, 0, 9, 0, 3, 0, 0, 0]

/-- A CancelRequest for process 1 with key 2. -/
def cancelPacket : List UInt8 := [0, 0, 0, 16, 0x04, 0xD2, 0x16, 0x2E, 0, 0, 0, 1, 0, 0, 0, 2]

theorem plainStartup_gated :
    Gated (connection (.bare true) () (plainStartup ++ selectMessage)).2.log :=
  gated_of_not_cancelled (.bare true) rfl () (plainStartup ++ selectMessage) (by decide +kernel)

/-- Behind a CancelRequest a query is answered without authentication. -/
theorem cancelled_not_gated :
    ¬ Gated (connection (.bare true) () (cancelPacket ++ selectMessage)).2.log := by
  have hlog : (connection (.bare true) () (cancelPacket ++ selectMessage)).2.log =
      [] ++ .passed "SELECT 1" ::
        [.sent .noData, .sent (.commandComplete "SELECT 0"), .sent (.readyForQuery .idle)] := by
    decide +kernel
  intro hgated
  obtain ⟨username, hmem⟩ := hgated _ _ _ hlog rfl
  cases hmem

end TensorVault.Server
