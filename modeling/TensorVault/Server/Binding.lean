import TensorVault.Server.Password

/-!
# What an accepted exchange binds

When `do_scram_auth` accepts a client, some user's credential has produced the proof, and the proof
is bound to the nonce of the server: it covers the server-first message. Nothing relates the user of
the startup packet to the user of the exchange, and nothing looks at the attributes `r=` and `c=` of
the final message. `accepted_bound_iff` says what is bound if the client composes its messages as
the protocol asks (`Conforming`); `Client.exchanged` shows that the honest client does.
-/

namespace TensorVault.Server

open Text Proc

/-! ## The exchange -/

/-- What was exchanged. -/
structure Exchange (δ : Type) where
  clientFirst : List UInt8
  username : String
  clientNonce : String
  cred : StoredCredential δ
  nonce : ServerNonce
  final : String

namespace Exchange

variable {σ δ : Type} (P : Scram.Primitives δ) (x : Exchange δ)

def bare : String := stripGs2Header x.clientFirst

def server : String := serverFirst P x.clientNonce x.nonce x.cred

/-- The part of the client-first message before the bare message. -/
def gs2Header : List Char :=
  match Utf8.decode x.clientFirst with
  | some cs => cs.take (cs.length - (stripGs2Chars cs).length)
  | none => []

/-- The value of `c=` that belongs to the header. -/
def channelBinding : List Char := P.base64.encode (Utf8.encode x.gs2Header)

variable [DecidableEq δ] (S : Services σ δ)

/-- The credential has produced the proof. -/
def Accepted : Prop :=
  (verifyScram S.primitives x.cred x.bare (x.server S.primitives) x.final).isSome

/-- The user of the session and the attributes of the final message are those of the exchange. -/
structure Bound (session : Session) : Prop where
  user : session.user = some x.username
  nonce : lastAttribute "r=" x.final = some (x.clientNonce.toList ++ x.nonce.text.toList)
  binding : lastAttribute "c=" x.final = some (x.channelBinding P)

/-- The final message has the parts the protocol asks for, and no others. -/
def Conforming : Prop :=
  ∃ nonce proof, lastAttribute "r=" (x.server P) = some nonce ∧ ',' ∉ proof ∧
    x.final.toList =
      "c=".toList ++ x.channelBinding P ++ ",r=".toList ++ nonce ++ ",p=".toList ++ proof

/-- No other connection of the user on which the server draws another nonce accepts the message. -/
def Fresh : Prop :=
  ∀ (bare clientNonce : String) (nonce : ServerNonce), nonce.text ≠ x.nonce.text →
    verifyScram S.primitives x.cred bare (serverFirst S.primitives clientNonce nonce x.cred)
      x.final = none

end Exchange

section Exchanged

variable {σ δ : Type} [DecidableEq δ] (S : Services σ δ)
  (readInitial : Handler σ (Option (String × List UInt8))) (readFinal : Handler σ (List UInt8))

/-- The exchange that took place between a server and its client. -/
inductive Exchanged (w : World σ) (x : Exchange δ) : Prop
  | intro {w₁ w₂ : World σ} {shared shared' : σ} {bytes : List UInt8} {cs : List Char}
    (first : readInitial { w with log := w.log ++ [.sent .authenticationSasl] } =
      (.ok (some ("SCRAM-SHA-256", x.clientFirst)), w₁))
    (parsed : parseClientFirstBare x.bare = some (x.username, x.clientNonce))
    (stored : S.getUser w₁.shared x.username = (shared, some x.cred))
    (drawn : S.serverNonce shared = (shared', x.nonce))
    (final : readFinal { w₁ with
      shared := shared'
      log := w₁.log ++ [.sent (.authenticationSaslContinue (x.server S.primitives))] } =
        (.ok bytes, w₂))
    (decoded : Utf8.decode bytes = some cs) (text : x.final = String.ofList cs) :
    Exchanged w x

/-- A client cannot change the session. -/
abbrev Outside {α : Type} (read : Handler σ α) : Prop :=
  Keeps (fun w w' => w'.conn = w.conn) read

variable {S readInitial readFinal}

theorem wp_scramAuth (hinitial : Outside readInitial) (hfinal : Outside readFinal) {w : World σ} :
    wp (scramAuth S readInitial readFinal)
      (fun _ w' => w'.conn = w.conn ∧ ∃ x, Exchanged S readInitial readFinal w x ∧ x.Accepted S)
      (fun _ _ => True) w := by
  unfold scramAuth
  rw [wp_bind, wp_send, wp_bind]
  refine wp_of_forall (fun init w₁ hfirst => ?_) fun _ _ _ => trivial
  have hconn₁ := hinitial.of_run hfirst
  split
  · exact wp_reject.mpr trivial
  · next mech clientFirst =>
    split
    · next hmech =>
      unfold answerClientFirst
      simp only
      split
      · exact wp_reject.mpr trivial
      · next username clientNonce hparse =>
        rw [wp_bind, wp_call]
        split
        · exact wp_reject.mpr trivial
        · next cred hcred =>
          rw [wp_bind, wp_call, wp_bind, wp_send]
          unfold finishScram
          rw [wp_bind]
          refine wp_of_forall (fun bytes w₂ hread => ?_) fun _ _ _ => trivial
          have hconn₂ := hfinal.of_run hread
          split
          · exact wp_reject.mpr trivial
          · next cs hdecode =>
            split
            · next signature hverified =>
              rw [wp_bind, record, wp_modify, wp_bind, wp_send]
              refine wp_sendAuthOkAndParams fun log => ⟨hconn₂.trans hconn₁, ?_⟩
              refine ⟨{ clientFirst, username, clientNonce, cred, nonce := _
                        final := String.ofList cs },
                .intro (hmech ▸ hfirst) hparse (Prod.ext rfl hcred) rfl hread hdecode rfl, ?_⟩
              exact Option.isSome_iff_exists.mpr ⟨signature, hverified⟩
            · exact wp_reject.mpr trivial
    · exact wp_reject.mpr trivial

end Exchanged

/-! ## The attributes -/

theorem comma_not_mem_of_lastAttribute {key text : String} {value : List Char}
    (h : lastAttribute key text = some value) : ',' ∉ value := by
  obtain ⟨part, hpart, hstrip⟩ := List.mem_filterMap.mp (List.mem_of_getLast? h)
  unfold stripPre at hstrip
  split at hstrip
  · cases hstrip
    exact fun hmem => not_mem_of_mem_splitOn hpart (List.mem_of_mem_drop hmem)
  · cases hstrip

variable {bare username clientNonce : String}

theorem comma_not_mem_of_parse
    (h : parseClientFirstBare bare = some (username, clientNonce)) : ',' ∉ clientNonce.toList := by
  unfold parseClientFirstBare at h
  split at h
  · next hr =>
    cases h
    rw [String.toList_ofList]
    exact comma_not_mem_of_lastAttribute hr
  · cases h

namespace Exchange

/-- A message with the parts of the protocol has the attributes of the exchange. -/
theorem Conforming.attributes {δ : Type} {P : Scram.Primitives δ} {x : Exchange δ}
    (h : x.Conforming P) : lastAttribute "r=" x.final = lastAttribute "r=" (x.server P) ∧
      lastAttribute "c=" x.final = some (x.channelBinding P) := by
  obtain ⟨nonce, proof, hserver, hproof, hfinal⟩ := h
  have hsplit : splitOn ',' x.final.toList = ['c' :: '=' :: x.channelBinding P,
      'r' :: '=' :: nonce, 'p' :: '=' :: proof] := by
    have hlist : x.final.toList = ('c' :: '=' :: x.channelBinding P) ++ ',' ::
        (('r' :: '=' :: nonce) ++ ',' :: ('p' :: '=' :: proof)) := by
      simp [hfinal]
    have hc : ',' ∉ 'c' :: '=' :: x.channelBinding P := by
      unfold channelBinding
      simpa using comma_not_mem_encode
    have hr : ',' ∉ 'r' :: '=' :: nonce := by
      simpa using comma_not_mem_of_lastAttribute hserver
    have hp : ',' ∉ 'p' :: '=' :: proof := by simpa using hproof
    rw [hlist, splitOn_three hc hr hp]
  constructor
  · rw [hserver, lastAttribute, hsplit]
    rfl
  · rw [lastAttribute, hsplit]
    rfl

end Exchange

/-! ## The proof -/

section

variable {δ : Type} {P : Scram.Primitives δ} {cred : StoredCredential δ}

/-- The text that is signed says which nonce the server has drawn. -/
theorem nonce_eq_of_authMessage_eq {bare' clientNonce' withoutProof : String}
    {nonce nonce' : ServerNonce}
    (h : authMessage bare (serverFirst P clientNonce nonce cred) withoutProof =
      authMessage bare' (serverFirst P clientNonce' nonce' cred) withoutProof) :
    nonce.text = nonce'.text := by
  have hparts : ∀ (bare clientNonce : String) (nonce : ServerNonce),
      (bare ++ "," ++ serverFirst P clientNonce nonce cred ++ "," ++ withoutProof).toList =
        ((bare ++ ",r=" ++ clientNonce).toList ++ nonce.text.toList) ++
          (",s=" ++ String.ofList (P.base64.encode cred.salt) ++ ",i=" ++
            toString cred.iterations ++ "," ++ withoutProof).toList := by
    intro bare clientNonce nonce
    simp [serverFirst]
  have hlist := Utf8.encode_injective h
  rw [hparts, hparts] at hlist
  -- what follows the nonce is the same, and nonces have one length
  have hfront := (List.append_inj' hlist rfl).1
  exact String.toList_inj.mp
    (List.append_inj' hfront (nonce.length_eq.trans nonce'.length_eq.symm)).2

variable [DecidableEq δ]

/-- The proof of a final message, and the text before it. -/
def proofOf (P : Scram.Primitives δ) (final : String) : Option (δ × String) := do
  let proofB64 ← lastAttribute "p=" final
  let bytes ← P.base64.decode proofB64
  let clientProof ← P.ofBytes bytes
  let withoutProof ← beforeLast ",p=".toList final.toList
  some (clientProof, String.ofList withoutProof)

/-- `verify_scram` accepts a proof for the text it stands behind. -/
theorem verifyScram_isSome_iff {server final : String} :
    (verifyScram P cred bare server final).isSome ↔ ∃ proof withoutProof,
      proofOf P final = some (proof, withoutProof) ∧
        P.Accepts cred.storedKey (authMessage bare server withoutProof) proof := by
  unfold verifyScram proofOf Scram.Primitives.Accepts
  rcases lastAttribute "p=" final with - | proofB64
  · simp
  rcases hbytes : P.base64.decode proofB64 with - | bytes
  · simp [hbytes]
  rcases hproof : P.ofBytes bytes with - | proof
  · simp [hbytes, hproof]
  rcases beforeLast ",p=".toList final.toList with - | withoutProof
  · simp
  simp [hbytes, hproof]

end

/-! ## Accepted exchanges -/

/-- The user of a startup packet. -/
def startupUser (body : List UInt8) : String :=
  ((parseCstringPairs (body.drop 4)).foldl applyParam .new).user.getD "turboGP"

section Accepted

variable {σ δ : Type} [DecidableEq δ] {S : Services σ δ}
  {readInitial : Handler σ (Option (String × List UInt8))} {readFinal : Handler σ (List UInt8)}

theorem Exchange.Accepted.fresh (hideal : S.primitives.Ideal) {x : Exchange δ}
    (h : x.Accepted S) : x.Fresh S := by
  intro bare clientNonce nonce hne
  by_contra hsome
  obtain ⟨proof, withoutProof, hfinal, haccepts⟩ := verifyScram_isSome_iff.mp h
  obtain ⟨proof', withoutProof', hfinal', haccepts'⟩ :=
    verifyScram_isSome_iff.mp (Option.ne_none_iff_isSome.mp hsome)
  rw [hfinal] at hfinal'
  cases hfinal'
  exact hne (nonce_eq_of_authMessage_eq (hideal.message_eq_of_accepts haccepts' haccepts))

/-- **Binding.** An accepted exchange was made with a credential of the user it names, and its
final message is of no use on another connection. If the client composes its final message as the
protocol asks, user, nonce and channel binding are those of the exchange exactly if the startup
packet has named the same user. -/
theorem accepted_bound_iff (hideal : S.primitives.Ideal) (hinitial : Outside readInitial)
    (hfinal : Outside readFinal) {body : List UInt8} {w w' : World σ}
    (hstartup : w.conn.session = startupSession body .new)
    (hrun : scramAuth S readInitial readFinal w = (.ok (), w')) :
    ∃ x, Exchanged S readInitial readFinal w x ∧ x.Accepted S ∧ x.Fresh S ∧
      (x.Conforming S.primitives →
        (x.Bound S.primitives w'.conn.session ↔ startupUser body = x.username)) := by
  obtain ⟨hconn, x, hx, haccepted⟩ := of_wp_ok (wp_scramAuth hinitial hfinal) hrun
  have hserver : lastAttribute "r=" (x.server S.primitives) =
      some (x.clientNonce.toList ++ x.nonce.text.toList) := by
    obtain ⟨-, hparsed, -, -, -, -, -⟩ := hx
    exact lastAttribute_serverFirst (comma_not_mem_of_parse hparsed) _ _
  have huser : w'.conn.session.user = some (startupUser body) := by
    rw [hconn, hstartup]
    rfl
  refine ⟨x, hx, haccepted, haccepted.fresh hideal, fun hconforming => ⟨fun hbound => ?_, ?_⟩⟩
  · exact Option.some.inj (huser.symm.trans hbound.user)
  · intro hsame
    obtain ⟨hnonce, hbinding⟩ := hconforming.attributes
    exact ⟨hsame ▸ huser, hnonce.trans hserver, hbinding⟩

end Accepted

/-! ## The honest client -/

namespace Client

variable {σ δ : Type} (c : Client) {P : Scram.Primitives δ}

theorem outside_sendFirst : Outside (σ := σ) c.sendFirst := fun _ => rfl

theorem outside_sendFinal : Outside (σ := σ) (c.sendFinal P) := by
  refine Keeps.bind (fun _ _ _ h h' => h'.trans h) (fun _ => rfl) fun w => ?_
  split
  · split
    · exact fun _ => rfl
    · exact fun _ => rfl
  · exact fun _ => rfl

variable {c} {x : Exchange δ} {S : Services σ δ} {w : World σ}

theorem gs2Header_first (h : x.clientFirst = bytesOf c.first) : x.gs2Header = "n,,".toList := by
  have hlist : c.first.toList = 'n' :: ',' :: ',' :: c.bare.toList := by simp [first]
  unfold Exchange.gs2Header
  rw [h, bytesOf, Utf8.decode_encode, hlist]
  have hlength : c.bare.toList.length + 1 + 1 + 1 - c.bare.toList.length = 3 := by omega
  simp [stripGs2Chars, hlength]

/-- The answer of the client to the exchange so far. -/
theorem sendFinal_run {w w' : World σ} {bytes : List UInt8}
    {nonce : ServerNonce} {cred : StoredCredential δ} (hlast : w.log.getLast? =
      some (.sent (.authenticationSaslContinue (serverFirst P c.nonce nonce cred))))
    (h : c.sendFinal P w = (.ok bytes, w')) :
    bytes = bytesOf (c.withoutProof P nonce ++ ",p=" ++
      String.ofList (P.base64.encode (P.toBytes (c.proof P nonce cred)))) := by
  refine (of_wp_ok (?_ : wp (c.sendFinal P) (fun bytes _ => bytes = _) (fun _ _ => True) w) h :)
  unfold sendFinal
  simp only [wp_bind, wp_get, hlast, final_serverFirst, wp_pure]

/-- An honest client names its user and composes its messages as the protocol asks. -/
theorem exchanged (h : Exchanged S c.sendFirst (c.sendFinal S.primitives) w x) :
    x.username = saslName c.username ∧ x.Conforming S.primitives := by
  obtain ⟨hfirst, hparsed, -, -, hfinal, hdecoded, htext⟩ := h
  have hclientFirst : bytesOf c.first = x.clientFirst :=
    (Prod.mk.inj (Option.some.inj (Except.ok.inj (Prod.mk.inj hfirst).1))).2
  rw [Exchange.bare, ← hclientFirst, stripGs2Header_first, parseClientFirstBare_bare] at hparsed
  obtain ⟨huser, hnonce⟩ := Prod.mk.inj (Option.some.inj hparsed)
  have hserver : x.server S.primitives = serverFirst S.primitives c.nonce x.nonce x.cred := by
    rw [Exchange.server, hnonce]
  rw [sendFinal_run (by rw [List.getLast?_concat, hserver]) hfinal, bytesOf,
    Utf8.decode_encode] at hdecoded
  refine ⟨huser.symm, c.nonce.toList ++ x.nonce.text.toList,
    S.primitives.base64.encode (S.primitives.toBytes (c.proof S.primitives x.nonce x.cred)), ?_,
    comma_not_mem_encode, ?_⟩
  · rw [hserver, lastAttribute_serverFirst c.comma_not_mem]
  · rw [htext, String.toList_ofList, ← Option.some.inj hdecoded, Exchange.channelBinding,
      gs2Header_first hclientFirst.symm]
    simp [withoutProof, Client.channelBinding, bytesOf]

/-- An honest client with the right password is accepted. -/
theorem exists_run [DecidableEq δ] (hideal : S.primitives.Ideal) {shared : σ} {salt : List UInt8}
    {iterations : Nat} (huser : S.getUser w.shared (saslName c.username) =
      (shared, some (.fromPassword S.primitives c.password salt iterations))) :
    ∃ w', scramAuth S c.sendFirst (c.sendFinal S.primitives) w = (.ok (), w') := by
  have haccepted := (login_iff S hideal huser).mpr rfl
  unfold login at haccepted
  exact exists_of_ok haccepted

end Client

/-! ## Two startup packets -/

/-- A startup packet of version 3.0 with a user, behind its length. -/
def startupBody (username : String) : List UInt8 :=
  [0, 3, 0, 0] ++ bytesOf "user" ++ [0] ++ bytesOf username ++ [0, 0]

/-- A connection whose startup packet names a user, to a server that knows alice. -/
def startedAs (username : String) : World (Shared Unit (Finset Nat)) where
  conn := { PgConn.new with session := startupSession (startupBody username) .new }
  shared :=
    ServerConfig.bare.createUser { engine := (), passwords := .new, drawn := 0 } "alice" "secret"
  input := []
  log := []

/-- A client that knows the password of alice. -/
def alice : Client :=
  { username := "alice", password := "secret", nonce := "fyko", comma_not_mem := by decide }

/-- The exchange of alice with the server. -/
def aliceRun (username : String) : Except Stop Unit × World (Shared Unit (Finset Nat)) :=
  scramAuth ServerConfig.bare.services alice.sendFirst
    (alice.sendFinal ServerConfig.bare.services.primitives) (startedAs username)

theorem aliceRun_ok : ∃ w', aliceRun username = (.ok (), w') :=
  Client.exists_run (c := alice) (S := ServerConfig.bare.services) Scram.free_ideal
    (ServerConfig.bare.getUser_createUser _ "alice" "secret")

theorem alice_bound : ∃ w', aliceRun "alice" = (.ok (), w') ∧
    ∃ x : Exchange (Finset Nat), x.Bound Scram.free w'.conn.session := by
  obtain ⟨w', hrun⟩ := aliceRun_ok
  obtain ⟨x, hx, -, -, hbound⟩ := accepted_bound_iff Scram.free_ideal
    alice.outside_sendFirst alice.outside_sendFinal rfl hrun
  obtain ⟨huser, hconforming⟩ := Client.exchanged hx
  refine ⟨w', hrun, x, (hbound hconforming).mpr ?_⟩
  rw [huser]
  decide

/-- With the password of alice a client gets a session of bob. -/
theorem bob_not_bound : ∃ w', aliceRun "bob" = (.ok (), w') ∧ ∃ x : Exchange (Finset Nat),
    Exchanged ServerConfig.bare.services alice.sendFirst
      (alice.sendFinal ServerConfig.bare.services.primitives) (startedAs "bob") x ∧
    x.Conforming Scram.free ∧ x.username = "alice" ∧ w'.conn.session.user = some "bob" := by
  obtain ⟨w', hrun⟩ := aliceRun_ok
  obtain ⟨hconn, x, hx, -⟩ := of_wp_ok (wp_scramAuth alice.outside_sendFirst
    alice.outside_sendFinal) hrun
  obtain ⟨huser, hconforming⟩ := Client.exchanged hx
  refine ⟨w', hrun, x, hx, hconforming, huser, ?_⟩
  rw [hconn]
  decide

end TensorVault.Server
