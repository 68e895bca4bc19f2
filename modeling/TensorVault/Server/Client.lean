import TensorVault.Server.Startup

/-!
# The honest client

A client of RFC 5802 that runs the SCRAM exchange. The server accepts it exactly if its password is
the one the stored credential was made of (`Client.login_iff`). The server looks the client up under
the name as it was sent, with `,` and `=` still escaped.
-/

namespace TensorVault.Server

open Text Proc

/-! ## Attribute lists -/

theorem stripPre_append {pre cs : List Char} : stripPre pre (pre ++ cs) = some cs := by
  rw [stripPre, if_pos (List.isPrefixOf_iff_prefix.mpr (List.prefix_append _ _)), List.drop_left]

theorem splitOn_two {a b : List Char} (ha : ',' ∉ a) (hb : ',' ∉ b) :
    splitOn ',' (a ++ ',' :: b) = [a, b] := by
  rw [splitOn_append, splitOn_of_not_mem ha, splitOn_of_not_mem hb]
  rfl

theorem splitOn_three {a b c : List Char} (ha : ',' ∉ a) (hb : ',' ∉ b) (hc : ',' ∉ c) :
    splitOn ',' (a ++ ',' :: (b ++ ',' :: c)) = [a, b, c] := by
  rw [splitOn_append, splitOn_of_not_mem ha, splitOn_two hb hc]
  rfl

/-- The last part of a list is found under its key. -/
theorem lastAttribute_last {key : String} {init : List Char} {value : List Char}
    (h : ',' ∉ key.toList ++ value) :
    lastAttribute key (String.ofList (init ++ ',' :: (key.toList ++ value))) = some value := by
  unfold lastAttribute
  rw [String.toList_ofList, splitOn_append, splitOn_of_not_mem h, List.filterMap_append,
    List.filterMap_cons, stripPre_append]
  simp

theorem beforeLast_of_not_mem {c : Char} {pat cs : List Char} (h : c ∉ cs) :
    beforeLast (c :: pat) cs = none := by
  induction cs with
  | nil => rfl
  | cons d cs ih =>
    rw [List.mem_cons, not_or] at h
    rw [beforeLast, ih h.2]
    simp [h.1]

theorem beforeLast_append {c : Char} {pat rest : List Char} (h : c ∉ pat ++ rest)
    {pre : List Char} : beforeLast (c :: pat) (pre ++ c :: (pat ++ rest)) = some pre := by
  induction pre with
  | nil =>
    rw [List.nil_append, beforeLast, beforeLast_of_not_mem h]
    simp
  | cons d pre ih => rw [List.cons_append, beforeLast, ih]

theorem comma_not_mem_encode {B : Base64.Codec} {bytes : List UInt8} : ',' ∉ B.encode bytes :=
  fun h => absurd (B.alphabet _ _ h) (by decide)

theorem comma_not_mem_toString {n : Nat} : ',' ∉ (toString n).toList := fun h => by
  cases isDigit_of_mem_toString n h

variable {nonce : ServerNonce} {clientNonce : String}

theorem comma_not_mem_nonce : ',' ∉ nonce.text.toList := fun h =>
  absurd (nonce.charset _ h) (by decide)

/-- The parts of a server-first message. -/
theorem splitOn_serverFirst {δ : Type} {P : Scram.Primitives δ} (h : ',' ∉ clientNonce.toList)
    {cred : StoredCredential δ} : splitOn ',' (serverFirst P clientNonce nonce cred).toList =
      ['r' :: '=' :: (clientNonce.toList ++ nonce.text.toList),
        's' :: '=' :: P.base64.encode cred.salt,
          'i' :: '=' :: (toString cred.iterations).toList] := by
  have hlist : (serverFirst P clientNonce nonce cred).toList =
      ('r' :: '=' :: (clientNonce.toList ++ nonce.text.toList)) ++ ',' ::
        (('s' :: '=' :: P.base64.encode cred.salt) ++ ',' ::
          ('i' :: '=' :: (toString cred.iterations).toList)) := by
    simp [serverFirst]
  have hr : ',' ∉ 'r' :: '=' :: (clientNonce.toList ++ nonce.text.toList) := by
    simpa using ⟨h, comma_not_mem_nonce⟩
  have hs : ',' ∉ 's' :: '=' :: P.base64.encode cred.salt := by
    simpa using comma_not_mem_encode
  have hi : ',' ∉ 'i' :: '=' :: (toString cred.iterations).toList := by
    simpa using comma_not_mem_toString
  rw [hlist, splitOn_three hr hs hi]

/-- The combined nonce is the attribute `r=`. -/
theorem lastAttribute_serverFirst {δ : Type} {P : Scram.Primitives δ}
    (h : ',' ∉ clientNonce.toList) (nonce : ServerNonce) (cred : StoredCredential δ) :
    lastAttribute "r=" (serverFirst P clientNonce nonce cred) =
      some (clientNonce.toList ++ nonce.text.toList) := by
  rw [lastAttribute, splitOn_serverFirst h]
  rfl

/-! ## The client -/

/-- What a client knows, and the nonce it has drawn. -/
structure Client where
  username : String
  password : String
  nonce : String
  comma_not_mem : ',' ∉ nonce.toList

/-- A character in the value of an attribute. -/
def saslEscape (c : Char) : List Char :=
  if c = ',' then ['=', '2', 'C'] else if c = '=' then ['=', '3', 'D'] else [c]

/-- A user name as the value of an attribute. -/
def saslName (username : String) : String := String.ofList (username.toList.flatMap saslEscape)

namespace Client

/-- client-first-message-bare. -/
def bare (c : Client) : String := "n=" ++ saslName c.username ++ ",r=" ++ c.nonce

/-- client-first-message, without channel binding. -/
def first (c : Client) : String := "n,," ++ c.bare

variable {δ : Type} (P : Scram.Primitives δ) {σ : Type}

/-- The channel binding of the client-first message. -/
def channelBinding : String := String.ofList (P.base64.encode (bytesOf "n,,"))

/-- client-final-message for a server-first message that repeats the nonce of the client. -/
def final (c : Client) (server : String) : Option String := do
  let nonce ← lastAttribute "r=" server
  let salt ← (lastAttribute "s=" server).bind P.base64.decode
  let iterations ← (lastAttribute "i=" server).bind parseDigits
  let withoutProof := "c=" ++ channelBinding P ++ ",r=" ++ String.ofList nonce
  let key := clientKey P (bytesOf c.password) salt iterations
  let proof := P.proof key (authMessage c.bare server withoutProof)
  if c.nonce.toList.isPrefixOf nonce then
    some (withoutProof ++ ",p=" ++ String.ofList (P.base64.encode (P.toBytes proof)))
  else none

def sendFirst (c : Client) : Handler σ (Option (String × List UInt8)) :=
  pure (some ("SCRAM-SHA-256", bytesOf c.first))

/-- The client answers the message it has got last, and leaves if it cannot. -/
def sendFinal (c : Client) : Handler σ (List UInt8) := do
  let w ← Proc.get
  match w.log.getLast? with
  | some (.sent (.authenticationSaslContinue server)) =>
    match c.final P server with
    | some text => pure (bytesOf text)
    | none => Proc.stop (.failed .eof)
  | _ => Proc.stop (.failed .eof)

/-- The exchange of the server with this client. It is irreducible, so that no statement about it
is read by running it. -/
@[irreducible] def login [DecidableEq δ] (S : Services σ δ) (c : Client) : Handler σ Unit :=
  scramAuth S c.sendFirst (c.sendFinal S.primitives)

/-! ## Reading its messages -/

section

variable {c : Client}

theorem comma_not_mem_saslName {username : String} : ',' ∉ (saslName username).toList := by
  rw [saslName, String.toList_ofList, List.mem_flatMap]
  rintro ⟨ch, -, hmem⟩
  unfold saslEscape at hmem
  split_ifs at hmem with hcomma heq
  · simp at hmem
  · simp at hmem
  · exact hcomma (List.mem_singleton.mp hmem).symm

theorem stripGs2Header_first : stripGs2Header (bytesOf c.first) = c.bare := by
  unfold stripGs2Header bytesOf
  rw [Utf8.decode_encode]
  simp only [first, String.toList_append]
  exact String.ofList_toList

/-- The server takes the name as it was sent: it does not undo the escapes. -/
theorem parseClientFirstBare_bare :
    parseClientFirstBare c.bare = some (saslName c.username, c.nonce) := by
  have hsplit : splitOn ',' c.bare.toList =
      ['n' :: '=' :: (saslName c.username).toList, 'r' :: '=' :: c.nonce.toList] := by
    have hlist : c.bare.toList =
        ('n' :: '=' :: (saslName c.username).toList) ++ ',' :: ('r' :: '=' :: c.nonce.toList) := by
      simp [bare]
    rw [hlist, splitOn_two (by simpa using comma_not_mem_saslName) (by simpa using c.comma_not_mem)]
  have hn : lastAttribute "n=" c.bare = some (saslName c.username).toList := by
    rw [lastAttribute, hsplit]
    rfl
  have hr : lastAttribute "r=" c.bare = some c.nonce.toList := by
    rw [lastAttribute, hsplit]
    rfl
  simp only [parseClientFirstBare, hn, hr, String.ofList_toList]

/-- The client-final message without its proof. -/
def withoutProof (c : Client) (nonce : ServerNonce) : String :=
  "c=" ++ channelBinding P ++ ",r=" ++ c.nonce ++ nonce.text

/-- The proof of the client for a credential with this salt and iteration count. -/
def proof (c : Client) (nonce : ServerNonce) (cred : StoredCredential δ) : δ :=
  P.proof (clientKey P (bytesOf c.password) cred.salt cred.iterations)
    (authMessage c.bare (serverFirst P c.nonce nonce cred) (c.withoutProof P nonce))

theorem final_serverFirst {nonce : ServerNonce} {cred : StoredCredential δ} :
    c.final P (serverFirst P c.nonce nonce cred) = some (c.withoutProof P nonce ++ ",p=" ++
      String.ofList (P.base64.encode (P.toBytes (c.proof P nonce cred)))) := by
  have hr := lastAttribute_serverFirst (P := P) c.comma_not_mem nonce cred
  have hs : lastAttribute "s=" (serverFirst P c.nonce nonce cred) =
      some (P.base64.encode cred.salt) := by
    rw [lastAttribute, splitOn_serverFirst c.comma_not_mem]
    rfl
  have hi : lastAttribute "i=" (serverFirst P c.nonce nonce cred) =
      some (toString cred.iterations).toList := by
    rw [lastAttribute, splitOn_serverFirst c.comma_not_mem]
    rfl
  have hwithout : "c=" ++ channelBinding P ++ ",r=" ++
      String.ofList (c.nonce.toList ++ nonce.text.toList) = c.withoutProof P nonce := by
    simp only [String.ofList_append, String.ofList_toList, withoutProof, String.append_assoc]
  have hprefix : c.nonce.toList.isPrefixOf (c.nonce.toList ++ nonce.text.toList) = true :=
    List.isPrefixOf_iff_prefix.mpr (List.prefix_append _ _)
  unfold final
  simp only [hr, hs, hi, Option.bind_some, Option.bind_eq_bind, P.base64.decode_encode,
    parseDigits_toString, hprefix, if_true, hwithout]
  rfl

end

end Client

/-! ## Accepting the proof -/

section

variable {δ : Type} [DecidableEq δ] {P : Scram.Primitives δ}

/-- What `verify_scram` makes of a message that ends with a proof. -/
theorem verifyScram_append (hideal : P.Ideal) {cred : StoredCredential δ}
    {bare server withoutProof : String} {proof : δ} :
    (verifyScram P cred bare server (withoutProof ++ ",p=" ++
      String.ofList (P.base64.encode (P.toBytes proof)))).isSome ↔
      P.Accepts cred.storedKey (authMessage bare server withoutProof) proof := by
  have hdecode := P.base64.decode_encode (P.toBytes proof)
  have hcomma : ',' ∉ ['p', '='] ++ P.base64.encode (P.toBytes proof) := by
    simpa using comma_not_mem_encode
  generalize P.base64.encode (P.toBytes proof) = proofB64 at hdecode hcomma
  have htext : withoutProof ++ ",p=" ++ String.ofList proofB64 =
      String.ofList (withoutProof.toList ++ ',' :: (['p', '='] ++ proofB64)) := by
    rw [← String.toList_inj]
    simp
  have hp : lastAttribute "p=" (String.ofList (withoutProof.toList ++ ',' ::
      (['p', '='] ++ proofB64))) = some proofB64 := lastAttribute_last hcomma
  have hbefore : beforeLast [',', 'p', '='] (withoutProof.toList ++ ',' ::
      (['p', '='] ++ proofB64)) = some withoutProof.toList := beforeLast_append hcomma
  unfold verifyScram Scram.Primitives.Accepts
  rw [htext, hp, String.toList_ofList, String.toList_ofList, hbefore]
  simp [hdecode, hideal.ofBytes_toBytes]

end

namespace Client

variable {password : String} {salt : List UInt8} {σ δ : Type} [DecidableEq δ] (S : Services σ δ)
  {c : Client} {iterations : Nat} {w : World σ} {shared : σ}

/-- The check of the server on the answer of the client. -/
theorem verifyScram_final_iff (hideal : S.primitives.Ideal) (nonce : ServerNonce)
    {cred : StoredCredential δ}
    (hcred : cred = .fromPassword S.primitives password salt iterations) :
    (verifyScram S.primitives cred c.bare (serverFirst S.primitives c.nonce nonce cred)
      (c.withoutProof S.primitives nonce ++ ",p=" ++ String.ofList
        (S.primitives.base64.encode
          (S.primitives.toBytes (c.proof S.primitives nonce cred))))).isSome ↔
      c.password = password := by
  rw [verifyScram_append hideal]
  subst hcred
  refine hideal.accepts_proof_iff.trans ⟨fun hkey => ?_, fun h => h ▸ rfl⟩
  have hstretch := hideal.mac_key_injective _ hkey
  have hbytes := hideal.stretch_injective _ _ hstretch
  exact String.toList_inj.mp (Utf8.encode_injective hbytes)

/-- The exchange returns if the client knows the password of the credential, and otherwise it
ends. -/
theorem wp_login (hideal : S.primitives.Ideal) (huser : S.getUser w.shared (saslName c.username) =
      (shared, some (.fromPassword S.primitives password salt iterations))) :
    wp (c.login S) (fun _ _ => c.password = password) (fun _ _ => c.password ≠ password) w := by
  unfold login scramAuth sendFirst
  simp only [wp_bind, wp_send, wp_pure, if_true]
  unfold answerClientFirst
  simp only [stripGs2Header_first, parseClientFirstBare_bare, wp_bind, wp_call, huser, wp_send]
  generalize hcred : StoredCredential.fromPassword S.primitives password salt iterations = cred
  have hcheck := verifyScram_final_iff (c := c) S hideal (S.serverNonce shared).2 hcred.symm
  unfold finishScram sendFinal
  simp only [wp_bind, wp_get, List.getLast?_concat, final_serverFirst,
    wp_pure, bytesOf, Utf8.decode_encode, String.ofList_toList]
  split
  · next hsome =>
    have hpassword : c.password = password := hcheck.mp (by rw [hsome]; rfl)
    simp only [wp_bind, record, wp_modify, wp_send]
    exact wp_sendAuthOkAndParams fun _ => hpassword
  · next hnone =>
    refine wp_reject.mpr fun hpassword => ?_
    rw [hnone] at hcheck
    exact absurd (hcheck.mpr hpassword) (by simp)

/-- **The honest client** is accepted with the password of the credential, and with no other. -/
theorem login_iff (hideal : S.primitives.Ideal) (huser : S.getUser w.shared (saslName c.username) =
      (shared, some (.fromPassword S.primitives password salt iterations))) :
    (c.login S w).1 = .ok () ↔ c.password = password :=
  ok_iff_of_wp (wp_login S hideal huser)

/-- A client that is not known is turned away. -/
theorem login_unknown (huser : S.getUser w.shared (saslName c.username) = (shared, none)) :
    (c.login S w).1 ≠ .ok () := by
  have hwp : wp (c.login S) (fun _ _ => False) (fun _ _ => ¬ False) w := by
    unfold login scramAuth sendFirst
    simp only [wp_bind, wp_send, wp_pure, if_true]
    unfold answerClientFirst
    simp only [stripGs2Header_first, parseClientFirstBare_bare, wp_bind, wp_call, huser]
    exact wp_reject.mpr not_false
  exact (ok_iff_of_wp hwp).mp

end Client

end TensorVault.Server
