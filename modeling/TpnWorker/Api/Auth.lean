import TpnWorker.Api.Admin
import TpnWorker.Proxy.HttpConnect
import TpnWorker.Settings

/-! The login (`src/api/auth.rs`): a token for the password, the check of a token in front of the protected routes, and
    the change of the password. The token crate is an argument; times are in seconds. -/

namespace TpnWorker

structure Claims where
  sub : String
  exp : ℕ
deriving DecidableEq

/-- The token crate: `encode` with the default header, and `decode` with the default validation, at a time. -/
structure Jwt where
  encode : Claims → List UInt8 → Except String String
  decode : ℕ → String → List UInt8 → Except String Claims

/-- The crate accepts a token that was encoded with the key until a minute after its expiry. -/
structure Jwt.Decodes (J : Jwt) : Prop where
  fresh : ∀ {claims key token now}, J.encode claims key = .ok token → now ≤ claims.exp + 60 →
    J.decode now token key = .ok claims
  expired : ∀ {claims key token now}, J.encode claims key = .ok token → claims.exp + 60 < now →
    ∃ e, J.decode now token key = .error e

/-- What the middleware reads of a request: the `Authorization` header, if its bytes are visible ASCII, and the query. -/
structure AuthRequest where
  authorization : Option String
  query : Option String

structure LoginResponse where
  status : ℕ
  success : Bool
  message : String
  token : Option String
deriving DecidableEq

/-- A token for thirty days. -/
def generateToken (J : Jwt) (now : ℕ) (secret : String) : Except String String :=
  J.encode ⟨"admin", now + 30 * 24 * 60 * 60⟩ (textBytes secret)

def verifyToken (J : Jwt) (now : ℕ) (token secret : String) : Bool :=
  match J.decode now token (textBytes secret) with
  | .ok _ => true
  | .error _ => false

/-- POST /api/login -/
def LoginConfig.login (J : Jwt) (config : LoginConfig) (now : ℕ) (password : String) : LoginResponse :=
  let expected := textBytes config.loginPassword
  let provided := textBytes password
  let matched := if expected.length = provided.length then decide (expected = provided) else false
  if matched = false then ⟨401, false, "密码错误", none⟩
  else
    match generateToken J now config.jwtSecret with
    | .ok token => ⟨200, true, "登录成功", some token⟩
    | .error _ => ⟨500, false, "生成 token 失败", none⟩

/-- POST /api/password, on the content of the `.env` file and the outcome of the update. -/
def updatePassword (io : EnvKey → Except EnvFault Unit) (content password : String) : AdminResponse × String :=
  let password := String.ofList (trim password.toList)
  if (textBytes password).length < 4 then (⟨400, false, "密码至少4个字符", none⟩, content)
  else
    match io .loginPassword with
    | .ok () => (⟨200, true, "密码已更新，重启后生效", none⟩, updateEnvValue content .loginPassword password)
    | .error e => (⟨500, false, "更新失败: " ++ e.message, none⟩, e.left.getD content)

/-- The token of an `Authorization: Bearer` header. -/
def bearerToken (auth : String) : Option String := (stripPrefix? "Bearer ".toList auth.toList).map String.ofList

/-- The token of a part of the query. -/
def queryToken (part : List Char) : Option String :=
  (stripPrefix? "token=".toList part).map fun value => String.ofList (trim value)

/-- The middleware: `.ok` when the handler is run. -/
def authMiddleware (J : Jwt) (config : LoginConfig) (now : ℕ) (req : AuthRequest) : Except UInt16 Unit :=
  -- no password set: the check is skipped entirely
  if config.loginPassword = "" then .ok ()
  else if (req.authorization.bind bearerToken).any fun token => verifyToken J now token config.jwtSecret then .ok ()
  else if req.query.any fun query => (query.toList.splitOn '&').any fun part =>
      (queryToken part).any fun token => decide (token ≠ "") && verifyToken J now token config.jwtSecret then .ok ()
  else .error 401

/-- The request carries this token: as its bearer, or as a non-empty `token` of its query, of which the white space around
    it does not count. -/
def AuthRequest.Presents (req : AuthRequest) (token : String) : Prop :=
  req.authorization = some ("Bearer " ++ token) ∨
    token ≠ "" ∧ ∃ query value, req.query = some query ∧ "token=".toList ++ value ∈ query.toList.splitOn '&' ∧
      String.ofList (trim value) = token

section Checks
variable {J : Jwt} {config : LoginConfig} {now : ℕ} {req : AuthRequest} {token password : String}

theorem stripPrefix?_eq_some {lead text rest : List Char} : stripPrefix? lead text = some rest ↔ text = lead ++ rest := by
  rw [stripPrefix?]
  split
  · next h =>
    obtain ⟨rest', rfl⟩ := List.isPrefixOf_iff_prefix.mp h
    simp [eq_comm]
  · next h =>
    refine iff_of_false (fun h => by cases h) ?_
    rintro rfl
    exact h (List.isPrefixOf_iff_prefix.mpr (List.prefix_append ..))

theorem bearerToken_eq_some {auth : String} : bearerToken auth = some token ↔ auth = "Bearer " ++ token := by
  rw [bearerToken, Option.map_eq_some_iff]
  constructor
  · rintro ⟨rest, hrest, rfl⟩
    rw [← String.toList_inj, stripPrefix?_eq_some.mp hrest, String.toList_append]
    exact congrArg _ String.toList_ofList.symm
  · rintro rfl
    exact ⟨token.toList, stripPrefix?_eq_some.mpr (String.toList_append ..), String.ofList_toList⟩

theorem queryToken_eq_some {part : List Char} :
    queryToken part = some token ↔ ∃ value, part = "token=".toList ++ value ∧ String.ofList (trim value) = token := by
  rw [queryToken, Option.map_eq_some_iff]
  exact exists_congr fun value => and_congr_left' stripPrefix?_eq_some

theorem verifyToken_iff {secret : String} :
    verifyToken J now token secret = true ↔ ∃ claims, J.decode now token (textBytes secret) = .ok claims := by
  rw [verifyToken]
  split
  · next claims h => simp [h]
  · next e h => simp [h]

/-- A request goes through exactly if no password is set or it carries a token that verifies. -/
theorem authMiddleware_ok_iff : authMiddleware J config now req = .ok () ↔
    config.loginPassword = "" ∨ ∃ token, req.Presents token ∧ verifyToken J now token config.jwtSecret = true := by
  have hbearer : ((req.authorization.bind bearerToken).any fun token => verifyToken J now token config.jwtSecret) = true ↔
      ∃ token, req.authorization = some ("Bearer " ++ token) ∧ verifyToken J now token config.jwtSecret = true := by
    rw [Option.any_eq_true]
    simp only [Option.bind_eq_some_iff, bearerToken_eq_some]
    constructor
    · rintro ⟨token, ⟨auth, hauth, rfl⟩, hverify⟩
      exact ⟨token, hauth, hverify⟩
    · rintro ⟨token, hauth, hverify⟩
      exact ⟨token, ⟨_, hauth, rfl⟩, hverify⟩
  have hquery : (req.query.any fun query => (query.toList.splitOn '&').any fun part =>
      (queryToken part).any fun token => decide (token ≠ "") && verifyToken J now token config.jwtSecret) = true ↔
      ∃ token, (token ≠ "" ∧ ∃ query value, req.query = some query ∧ "token=".toList ++ value ∈ query.toList.splitOn '&' ∧
        String.ofList (trim value) = token) ∧ verifyToken J now token config.jwtSecret = true := by
    simp only [Option.any_eq_true, List.any_eq_true, Bool.and_eq_true, decide_eq_true_eq, queryToken_eq_some]
    constructor
    · rintro ⟨query, hquery, part, hpart, token, ⟨value, rfl, htoken⟩, hne, hverify⟩
      exact ⟨token, ⟨hne, query, value, hquery, hpart, htoken⟩, hverify⟩
    · rintro ⟨token, ⟨hne, query, value, hquery, hpart, htoken⟩, hverify⟩
      exact ⟨query, hquery, _, hpart, token, ⟨value, rfl, htoken⟩, hne, hverify⟩
  have hpresents : (∃ token, req.Presents token ∧ verifyToken J now token config.jwtSecret = true) ↔ _ :=
    (exists_congr fun token => or_and_right).trans exists_or
  rw [hpresents, ← hbearer, ← hquery, authMiddleware]
  split
  · next h => exact iff_of_true rfl (Or.inl h)
  · next h =>
    split
    · next hb => exact iff_of_true rfl (Or.inr (Or.inl hb))
    · next hb =>
      split
      · next hq => exact iff_of_true rfl (Or.inr (Or.inr hq))
      · next hq =>
        refine iff_of_false (fun h => by cases h) ?_
        rintro (h' | h' | h')
        · exact h h'
        · exact hb h'
        · exact hq h'

/-- The comparison of the bytes is one of the texts. -/
theorem LoginConfig.login_eq : config.login J now password =
    if password ≠ config.loginPassword then ⟨401, false, "密码错误", none⟩
    else
      match generateToken J now config.jwtSecret with
      | .ok token => ⟨200, true, "登录成功", some token⟩
      | .error _ => ⟨500, false, "生成 token 失败", none⟩ := by
  have hmatched : (if (textBytes config.loginPassword).length = (textBytes password).length then
      decide (textBytes config.loginPassword = textBytes password) else false) = decide (password = config.loginPassword) := by
    split
    · rw [decide_eq_decide, textBytes_inj]
      exact eq_comm
    · next hlen =>
      symm
      rw [decide_eq_false_iff_not]
      rintro rfl
      exact hlen rfl
  simp only [LoginConfig.login, hmatched, decide_eq_false_iff_not, ne_eq]

/-- A token is issued only for the password, and it is one for thirty days under the secret. -/
theorem LoginConfig.login_token (h : (config.login J now password).token = some token) :
    password = config.loginPassword ∧ generateToken J now config.jwtSecret = .ok token := by
  rw [login_eq] at h
  split at h
  · simp at h
  · next hpassword =>
    refine ⟨not_not.mp hpassword, ?_⟩
    split at h
    · next token' htoken =>
      rw [htoken, Option.some.inj h]
    · simp at h

end Checks

end TpnWorker
