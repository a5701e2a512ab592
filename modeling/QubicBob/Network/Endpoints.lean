import QubicBob.Indexer.Search

set_option autoImplicit false

/-! # The peers of the configuration

`parseConnection` makes a connection of each endpoint `nodeType:ip:port` or
`nodeType:ip:port:pass0-pass1-pass2-pass3` that it can read, and skips the others with a warning.

The numbers are read by `std::stoi` and `std::stoull`, which stop at the first character that is not
a digit, and nothing behind the fourth number of a passcode is looked at. So more is read than what
is written, and the texts that are read are given by a relation, `Denotes`, with a rule for each
form. The parser looks for the first separator at each point; a text is with or without it, and
where it has one the part in front has none, which makes the rules exclusive and the relation the
graph of the parser. What is written as an endpoint is the case of it with plain numbers.
-/

namespace QubicBob

/-! ## The code -/

/-- `std::stoi`: blanks, a sign and decimal digits, where `none` stands for an exception. -/
def stoi (str : List Char) : Option Int :=
  let str := str.dropWhile isSpace
  let negative := str.head? = some '-'
  let digits := (if str.head? = some '-' ∨ str.head? = some '+' then str.tail else str).takeWhile
    Char.isDigit
  let value : Int := if negative then -(Nat.ofDigitChars 10 digits 0 : Nat)
    else (Nat.ofDigitChars 10 digits 0 : Nat)
  if digits = [] then none
  else if value < -2 ^ 31 ∨ 2 ^ 31 ≤ value then none
  else some value

/-- `str.find(c)`, where `none` is `npos`. -/
def findChar (str : List Char) (c : Char) : Option Nat := if c ∈ str then some (str.idxOf c) else none

/-- The warnings under which an endpoint is skipped. -/
inductive EndpointError where
  | expectedFormat
  | nodeType
  | missingPasscode
  | invalidPort (portStr : List Char)
  | passcodeFormat
  deriving DecidableEq, Repr

/-- What `parseConnection` sets of a `QubicConnection`. -/
structure ConfiguredPeer where
  nodeType : List Char
  mNodeIp : List Char
  mNodePort : Int
  mPasscode : List (BitVec 64)
  deriving DecidableEq

/-- `memset(mPasscode, 0xff, 8*4)` -/
def noPasscode : List (BitVec 64) := List.replicate 4 (BitVec.allOnes 64)

/-- `strncpy(mNodeIp, nodeIp, sizeof(mNodeIp) - 1)` of a `c_str()`, with `char mNodeIp[32]`. -/
def copyNodeIp (ip : List Char) : List Char := (ip.takeWhile (· ≠ '\x00')).take 31

/-- The loop over the numbers of a passcode, of which so many are still to come: `none` where `idx` is
not 4 behind it. -/
def parseTokens : Nat → List Char → Option (List (BitVec 64))
  | 0, _ => some []
  | left + 1, str =>
    let dash := findChar str '-'
    let token := dash.elim str str.take
    if token = [] then none
    else
      match stoul token, dash with
      | none, _ => none
      | some value, none => if left = 0 then some [BitVec.ofNat 64 value] else none
      -- `start` stays within the text, as the separator does
      | some value, some dash =>
        (parseTokens left (str.drop (dash + 1))).map (BitVec.ofNat 64 value :: ·)

/-- The lines from the port on. -/
def parsePort (nodeType ip portStr passcodeStr : List Char) : Except EndpointError ConfiguredPeer :=
  match stoi portStr with
  | none => .error (.invalidPort portStr)
  | some port =>
    if port ≤ 0 ∨ port > 65535 then .error (.invalidPort portStr)
    else if passcodeStr = [] then .ok ⟨nodeType, copyNodeIp ip, port, noPasscode⟩
    else
      match parseTokens 4 passcodeStr with
      | none => .error .passcodeFormat
      | some parsed => .ok ⟨nodeType, copyNodeIp ip, port, parsed⟩

/-- The lines from `rest` on. -/
def parseRest (nodeType rest : List Char) : Except EndpointError ConfiguredPeer :=
  match findChar rest ':' with
  | none => .error .expectedFormat
  | some p1 =>
    if p1 = 0 ∨ p1 = rest.length - 1 then .error .expectedFormat
    else
      let behind := rest.drop (p1 + 1)
      match findChar behind ':' with
      | none => parsePort nodeType (rest.take p1) behind []
      | some n =>
        if p1 + 1 + n = rest.length - 1 then .error .missingPasscode
        else parsePort nodeType (rest.take p1) (behind.take n) (behind.drop (n + 1))

def parseEndpoint (endpoint : List Char) : Except EndpointError ConfiguredPeer :=
  match findChar endpoint ':' with
  | none => .error .expectedFormat
  | some p0 =>
    if p0 = 0 ∨ p0 = endpoint.length - 1 then .error .expectedFormat
    else
      let nodeType := endpoint.take p0
      if nodeType ≠ "BM".toList ∧ nodeType ≠ "bob".toList then .error .nodeType
      else parseRest nodeType (endpoint.drop (p0 + 1))

/-- `parseConnection` -/
def parseConnection (connPoolAll : List ConfiguredPeer) (endpoints : List (List Char)) :
    List ConfiguredPeer :=
  endpoints.foldl (fun pool endpoint =>
    match parseEndpoint endpoint with
    | .error _ => pool
    | .ok conn => pool ++ [conn]) connPoolAll

/-! ## The texts -/

/-- So many numbers with `-` between them, and behind the last a `-` with anything. -/
inductive PasscodeText : Nat → List Char → List (BitVec 64) → Prop where
  | rest (str : List Char) : PasscodeText 0 str []
  | last {token : List Char} {value : Nat} (hdash : '-' ∉ token) (hvalue : stoul token = some value) :
      PasscodeText 1 token [BitVec.ofNat 64 value]
  | more {left : Nat} {token str : List Char} {value : Nat} {values : List (BitVec 64)}
      (hdash : '-' ∉ token) (hvalue : stoul token = some value)
      (hstr : PasscodeText left str values) :
      PasscodeText (left + 1) (token ++ '-' :: str) (BitVec.ofNat 64 value :: values)

/-- The port of a text. -/
structure PortText (portStr : List Char) (port : Int) : Prop where
  colon : ':' ∉ portStr
  value : stoi portStr = some port
  pos : 0 < port
  le : port ≤ 65535

/-- The texts that are read, and the connection each stands for. -/
inductive Denotes : List Char → ConfiguredPeer → Prop where
  | plain {nodeType ip portStr : List Char} {port : Int}
      (hnode : nodeType = "BM".toList ∨ nodeType = "bob".toList) (hip : ip ≠ []) (hcolon : ':' ∉ ip)
      (hport : PortText portStr port) :
      Denotes (nodeType ++ ':' :: (ip ++ ':' :: portStr)) ⟨nodeType, copyNodeIp ip, port, noPasscode⟩
  | trusted {nodeType ip portStr passcodeStr : List Char} {port : Int} {passcode : List (BitVec 64)}
      (hnode : nodeType = "BM".toList ∨ nodeType = "bob".toList) (hip : ip ≠ []) (hcolon : ':' ∉ ip)
      (hport : PortText portStr port) (hpasscode : PasscodeText 4 passcodeStr passcode) :
      Denotes (nodeType ++ ':' :: (ip ++ ':' :: (portStr ++ ':' :: passcodeStr)))
        ⟨nodeType, copyNodeIp ip, port, passcode⟩

/-! ## Separators -/

variable {str front behind : List Char} {c : Char}

theorem findChar_eq_none_iff : findChar str c = none ↔ c ∉ str := by
  rw [findChar]
  split
  · next h => exact ⟨fun hnone => (Option.some_ne_none _ hnone).elim, fun hnot => absurd h hnot⟩
  · next h => exact ⟨fun _ => h, fun _ => rfl⟩

theorem findChar_append (h : c ∉ front) : findChar (front ++ c :: behind) c = some front.length := by
  rw [findChar, if_pos (List.mem_append_right _ List.mem_cons_self), List.idxOf_append_of_notMem h,
    List.idxOf_cons_self, Nat.add_zero]

theorem drop_separator : (front ++ c :: behind).drop (front.length + 1) = behind := by
  rw [List.drop_append, List.drop_of_length_le (Nat.le_succ _), List.nil_append,
    Nat.add_sub_cancel_left]
  rfl

theorem separator_last_iff : front.length = (front ++ c :: behind).length - 1 ↔ behind = [] := by
  rw [List.length_append, List.length_cons, ← List.length_eq_zero_iff]
  omega

/-- A text without the separator, or with its first one. -/
theorem separator_cases (str : List Char) (c : Char) :
    c ∉ str ∨ ∃ front behind, str = front ++ c :: behind ∧ c ∉ front := by
  by_cases h : c ∈ str
  · exact .inr (List.eq_append_cons_of_mem h)
  · exact .inl h

/-! ## Passcodes -/

theorem stoul_ne_nil {token : List Char} {value : Nat} (h : stoul token = some value) :
    token ≠ [] := by
  rintro rfl
  cases h

theorem parseTokens_eq_some_iff {left : Nat} {values : List (BitVec 64)} :
    parseTokens left str = some values ↔ PasscodeText left str values := by
  induction left generalizing str values with
  | zero =>
      -- what stands behind the last number is not looked at
      constructor
      · intro h
        rw [← Option.some.inj h]
        exact .rest str
      · intro h
        cases h
        rfl
  | succ left ih =>
      rcases separator_cases str '-' with hnone | ⟨token, behind, rfl, hdash⟩
      · have hstep : parseTokens (left + 1) str = (if str = [] then none
            else match stoul str with
              | none => none
              | some value => if left = 0 then some [BitVec.ofNat 64 value] else none) := by
          rw [parseTokens, findChar_eq_none_iff.mpr hnone]
          refine if_congr Iff.rfl rfl ?_
          dsimp only [Option.elim]
          cases stoul str <;> rfl
        rw [hstep]
        constructor
        · intro h
          split at h
          · cases h
          · split at h
            · cases h
            · next value hvalue =>
              split at h
              · next hleft =>
                rw [hleft, ← Option.some.inj h]
                exact .last hnone hvalue
              · cases h
        · intro h
          cases h with
          | last hdash hvalue => rw [if_neg (stoul_ne_nil hvalue), hvalue]; rfl
          | more hdash hvalue hstr =>
              exact absurd (List.mem_append_right _ List.mem_cons_self) hnone
      · have hstep : parseTokens (left + 1) (token ++ '-' :: behind) = (if token = [] then none
            else match stoul token with
              | none => none
              | some value => (parseTokens left behind).map (BitVec.ofNat 64 value :: ·)) := by
          have htoken : (some token.length).elim (token ++ '-' :: behind)
              (token ++ '-' :: behind).take = token := List.take_left
          rw [parseTokens, findChar_append hdash]
          refine if_congr (Iff.of_eq (congrArg (· = []) htoken)) rfl ?_
          rw [htoken]
          cases stoul token with
          | none => rfl
          | some value =>
              dsimp only
              rw [drop_separator]
        rw [hstep]
        constructor
        · intro h
          split at h
          · cases h
          · split at h
            · cases h
            · next value hvalue =>
              obtain ⟨values, hvalues, rfl⟩ := Option.map_eq_some_iff.mp h
              exact .more hdash hvalue (ih.mp hvalues)
        · generalize htext : token ++ '-' :: behind = text
          intro h
          cases h with
          | last hnot hvalue =>
              rw [← htext] at hnot
              exact absurd (List.mem_append_right _ List.mem_cons_self) hnot
          | more hdash' hvalue hstr =>
              obtain ⟨rfl, rfl⟩ := append_separator_inj hdash hdash' htext
              rw [if_neg (stoul_ne_nil hvalue), hvalue]
              exact congrArg (Option.map _) (ih.mpr hstr)

/-! ## Endpoints -/

section Endpoints

theorem stoi_ne_nil {portStr : List Char} {port : Int} (h : stoi portStr = some port) :
    portStr ≠ [] := by
  rintro rfl
  cases h

theorem PasscodeText.ne_nil {left : Nat} {values : List (BitVec 64)}
    (h : PasscodeText (left + 1) str values) : str ≠ [] := by
  cases h with
  | last hdash hvalue => exact stoul_ne_nil hvalue
  | more hdash hvalue hstr => simp

variable {nodeType ip portStr passcodeStr : List Char} {conn : ConfiguredPeer}

theorem parsePort_ok_iff (hcolon : ':' ∉ portStr) :
    parsePort nodeType ip portStr passcodeStr = .ok conn ↔
      ∃ port, PortText portStr port ∧
        (passcodeStr = [] ∧ conn = ⟨nodeType, copyNodeIp ip, port, noPasscode⟩ ∨
          ∃ passcode, passcodeStr ≠ [] ∧ PasscodeText 4 passcodeStr passcode ∧
            conn = ⟨nodeType, copyNodeIp ip, port, passcode⟩) := by
  rw [parsePort]
  constructor
  · intro h
    split at h
    · cases h
    · next port hport =>
      split at h
      · cases h
      · next hrange =>
        refine ⟨port, ⟨hcolon, hport, by omega, by omega⟩, ?_⟩
        split at h
        · next hnil => exact .inl ⟨hnil, (Except.ok.inj h).symm⟩
        · next hne =>
          split at h
          · cases h
          · next passcode hparsed =>
            exact .inr ⟨passcode, hne, parseTokens_eq_some_iff.mp hparsed, (Except.ok.inj h).symm⟩
  · rintro ⟨port, hport, hpasscode⟩
    have hle := hport.le
    have hpos := hport.pos
    rw [hport.value]
    dsimp only
    rw [if_neg (by omega)]
    rcases hpasscode with ⟨hnil, rfl⟩ | ⟨passcode, hne, hparsed, rfl⟩
    · rw [if_pos hnil]
    · rw [if_neg hne, parseTokens_eq_some_iff.mpr hparsed]

theorem parseRest_of_separators (hip : ip ≠ []) (hcolon : ':' ∉ ip) (hport : ':' ∉ portStr)
    (hpasscode : passcodeStr ≠ []) :
    parseRest nodeType (ip ++ ':' :: (portStr ++ ':' :: passcodeStr)) =
      parsePort nodeType ip portStr passcodeStr := by
  have hne : portStr ++ ':' :: passcodeStr ≠ [] := by simp
  have hlast : ¬ ip.length + 1 + portStr.length =
      (ip ++ ':' :: (portStr ++ ':' :: passcodeStr)).length - 1 := by
    have hpos := List.length_pos_iff.mpr hpasscode
    rw [List.length_append, List.length_cons, List.length_append, List.length_cons]
    omega
  rw [parseRest, findChar_append hcolon]
  dsimp only
  rw [if_neg (not_or.mpr ⟨fun h => hip (List.length_eq_zero_iff.mp h),
    fun h => hne (separator_last_iff.mp h)⟩), drop_separator, findChar_append hport]
  dsimp only
  rw [if_neg hlast, List.take_left, List.take_left, drop_separator]

theorem parseRest_of_separator (hip : ip ≠ []) (hcolon : ':' ∉ ip) (hport : ':' ∉ portStr)
    (hne : portStr ≠ []) :
    parseRest nodeType (ip ++ ':' :: portStr) = parsePort nodeType ip portStr [] := by
  rw [parseRest, findChar_append hcolon]
  dsimp only
  rw [if_neg (not_or.mpr ⟨fun h => hip (List.length_eq_zero_iff.mp h),
    fun h => hne (separator_last_iff.mp h)⟩), drop_separator, findChar_eq_none_iff.mpr hport]
  dsimp only
  rw [List.take_left]

theorem parseRest_ok_iff {rest : List Char} :
    parseRest nodeType rest = .ok conn ↔
      ∃ ip portStr port, ip ≠ [] ∧ ':' ∉ ip ∧ PortText portStr port ∧
        (rest = ip ++ ':' :: portStr ∧ conn = ⟨nodeType, copyNodeIp ip, port, noPasscode⟩ ∨
          ∃ passcodeStr passcode, PasscodeText 4 passcodeStr passcode ∧
            rest = ip ++ ':' :: (portStr ++ ':' :: passcodeStr) ∧
            conn = ⟨nodeType, copyNodeIp ip, port, passcode⟩) := by
  constructor
  · intro h
    rcases separator_cases rest ':' with hnone | ⟨ip, behind, rfl, hcolon⟩
    · rw [parseRest, findChar_eq_none_iff.mpr hnone] at h
      cases h
    · by_cases hends : ip.length = 0 ∨ ip.length = (ip ++ ':' :: behind).length - 1
      · rw [parseRest, findChar_append hcolon] at h
        dsimp only at h
        rw [if_pos hends] at h
        cases h
      · obtain ⟨hip, hlast⟩ := not_or.mp hends
        have hip' : ip ≠ [] := fun hnil => hip (List.length_eq_zero_iff.mpr hnil)
        have hbehind : behind ≠ [] := fun hnil => hlast (separator_last_iff.mpr hnil)
        rcases separator_cases behind ':' with hport | ⟨portStr, passcodeStr, rfl, hport⟩
        · rw [parseRest_of_separator hip' hcolon hport hbehind] at h
          obtain ⟨port, hval, ⟨-, hconn⟩ | ⟨passcode, hne, -⟩⟩ := (parsePort_ok_iff hport).mp h
          · exact ⟨ip, behind, port, hip', hcolon, hval, .inl ⟨rfl, hconn⟩⟩
          · exact absurd rfl hne
        · by_cases hpasscode : passcodeStr = []
          · subst hpasscode
            have hend : ip.length + 1 + portStr.length =
                (ip ++ ':' :: (portStr ++ [':'])).length - 1 := by
              rw [List.length_append, List.length_cons, List.length_append, List.length_singleton]
              omega
            rw [parseRest, findChar_append hcolon] at h
            dsimp only at h
            rw [if_neg hends, drop_separator, findChar_append hport] at h
            dsimp only at h
            rw [if_pos hend] at h
            cases h
          · rw [parseRest_of_separators hip' hcolon hport hpasscode] at h
            obtain ⟨port, hval, ⟨hnil, -⟩ | ⟨passcode, -, htext, hconn⟩⟩ :=
              (parsePort_ok_iff hport).mp h
            · exact absurd hnil hpasscode
            · exact ⟨ip, portStr, port, hip', hcolon, hval,
                .inr ⟨passcodeStr, passcode, htext, rfl, hconn⟩⟩
  · rintro ⟨ip, portStr, port, hip, hcolon, hport, ⟨rfl, rfl⟩ |
      ⟨passcodeStr, passcode, htext, rfl, rfl⟩⟩
    · rw [parseRest_of_separator hip hcolon hport.colon (stoi_ne_nil hport.value)]
      exact (parsePort_ok_iff hport.colon).mpr ⟨port, hport, .inl ⟨rfl, rfl⟩⟩
    · rw [parseRest_of_separators hip hcolon hport.colon htext.ne_nil]
      exact (parsePort_ok_iff hport.colon).mpr
        ⟨port, hport, .inr ⟨passcode, htext.ne_nil, htext, rfl⟩⟩

/-- One of the two node types. -/
theorem nodeType_plain (h : nodeType = "BM".toList ∨ nodeType = "bob".toList) :
    ':' ∉ nodeType ∧ nodeType ≠ [] := by
  rcases h with rfl | rfl
  · decide
  · decide

theorem parseEndpoint_of_separator {rest : List Char}
    (h : nodeType = "BM".toList ∨ nodeType = "bob".toList) (hrest : rest ≠ []) :
    parseEndpoint (nodeType ++ ':' :: rest) = parseRest nodeType rest := by
  obtain ⟨hcolon, hne⟩ := nodeType_plain h
  rw [parseEndpoint, findChar_append hcolon]
  dsimp only
  rw [if_neg (not_or.mpr ⟨fun h => hne (List.length_eq_zero_iff.mp h),
    fun h => hrest (separator_last_iff.mp h)⟩), List.take_left, drop_separator,
    if_neg (fun hnot => h.elim hnot.1 hnot.2)]

/-- The accepted endpoint begins with its node type. -/
theorem exists_of_parseEndpoint {endpoint : List Char} (h : parseEndpoint endpoint = .ok conn) :
    ∃ nodeType rest, endpoint = nodeType ++ ':' :: rest ∧
      (nodeType = "BM".toList ∨ nodeType = "bob".toList) ∧ parseRest nodeType rest = .ok conn := by
  rcases separator_cases endpoint ':' with hnone | ⟨nodeType, rest, rfl, hcolon⟩
  · rw [parseEndpoint, findChar_eq_none_iff.mpr hnone] at h
    cases h
  · rw [parseEndpoint, findChar_append hcolon] at h
    dsimp only at h
    split at h
    · cases h
    · rw [List.take_left, drop_separator] at h
      split at h
      · cases h
      · next hnode =>
        refine ⟨nodeType, rest, rfl, ?_, h⟩
        by_contra hnot
        exact hnode (not_or.mp hnot)

theorem denotes_of_parseEndpoint {endpoint : List Char} (h : parseEndpoint endpoint = .ok conn) :
    Denotes endpoint conn := by
  obtain ⟨nodeType, rest, rfl, hnode, hrest⟩ := exists_of_parseEndpoint h
  obtain ⟨ip, portStr, port, hip, hcolon, hport, ⟨rfl, rfl⟩ |
    ⟨passcodeStr, passcode, htext, rfl, rfl⟩⟩ := parseRest_ok_iff.mp hrest
  · exact .plain hnode hip hcolon hport
  · exact .trusted hnode hip hcolon hport htext

theorem Denotes.parseEndpoint {endpoint : List Char} (h : Denotes endpoint conn) :
    parseEndpoint endpoint = .ok conn := by
  cases h with
  | plain hnode hip hcolon hport =>
      rw [parseEndpoint_of_separator hnode (by simp)]
      exact parseRest_ok_iff.mpr ⟨_, _, _, hip, hcolon, hport, .inl ⟨rfl, rfl⟩⟩
  | trusted hnode hip hcolon hport hpasscode =>
      rw [parseEndpoint_of_separator hnode (by simp)]
      exact parseRest_ok_iff.mpr ⟨_, _, _, hip, hcolon, hport, .inr ⟨_, _, hpasscode, rfl, rfl⟩⟩

/-- The texts that are read, and what is read from them. -/
theorem parseEndpoint_ok_iff (endpoint : List Char) (conn : ConfiguredPeer) :
    parseEndpoint endpoint = .ok conn ↔ Denotes endpoint conn :=
  ⟨denotes_of_parseEndpoint, Denotes.parseEndpoint⟩

end Endpoints

/-! ## Endpoints as they are written -/

/-- A peer with the numbers of its endpoint. -/
structure EndpointLine where
  isBM : Bool
  ip : List Char
  port : Nat
  passcode : Option (BitVec 64 × BitVec 64 × BitVec 64 × BitVec 64)

namespace EndpointLine

variable (line : EndpointLine)

def nodeType : List Char := if line.isBM then "BM".toList else "bob".toList

/-- `nodeType:ip:port`, and `:pass0-pass1-pass2-pass3` for a trusted node. -/
def text : List Char :=
  line.nodeType ++ ':' :: (line.ip ++ ':' :: (toDecimal line.port ++
    line.passcode.elim [] fun (pass0, pass1, pass2, pass3) =>
      ':' :: (toDecimal pass0.toNat ++ '-' :: (toDecimal pass1.toNat ++ '-' ::
        (toDecimal pass2.toNat ++ '-' :: toDecimal pass3.toNat)))))

def peer : ConfiguredPeer where
  nodeType := line.nodeType
  mNodeIp := line.ip
  mNodePort := line.port
  mPasscode := line.passcode.elim noPasscode fun (pass0, pass1, pass2, pass3) =>
    [pass0, pass1, pass2, pass3]

/-- The address fits into the connection, and the port is one. -/
structure WellFormed : Prop where
  ip_ne : line.ip ≠ []
  colon : ':' ∉ line.ip
  nul : '\x00' ∉ line.ip
  length_le : line.ip.length ≤ 31
  port_pos : 0 < line.port
  port_le : line.port ≤ 65535

end EndpointLine

theorem stoi_toDecimal {n : Nat} (h : n < 2 ^ 31) : stoi (toDecimal n) = some (n : Int) := by
  have hvalue : Nat.ofDigitChars 10 (toDecimal n) 0 = n := Nat.ofDigitChars_ten_toDigits
  have hne : toDecimal n ≠ [] := Nat.toDigits_ne_nil
  unfold stoi
  dsimp only
  rw [dropWhile_isSpace_toDecimal,
    if_neg (not_or.mpr ⟨head?_toDecimal_ne rfl, head?_toDecimal_ne rfl⟩),
    takeWhile_isDigit_toDecimal, if_neg hne, hvalue, if_neg (head?_toDecimal_ne rfl),
    if_neg (by omega)]

theorem portText_toDecimal {port : Nat} (hpos : 0 < port) (hle : port ≤ 65535) :
    PortText (toDecimal port) port where
  colon := colon_notMem_toDecimal
  value := stoi_toDecimal (by omega)
  pos := Int.natCast_pos.mpr hpos
  le := by omega

theorem passcodeText_toDecimal (pass0 pass1 pass2 pass3 : BitVec 64) :
    PasscodeText 4 (toDecimal pass0.toNat ++ '-' :: (toDecimal pass1.toNat ++ '-' ::
      (toDecimal pass2.toNat ++ '-' :: toDecimal pass3.toNat))) [pass0, pass1, pass2, pass3] := by
  have hdash : ∀ n, '-' ∉ toDecimal n := fun n h => absurd (isDigit_of_mem_toDecimal h) (by decide)
  have hread : ∀ pass : BitVec 64, stoul (toDecimal pass.toNat) = some pass.toNat :=
    fun pass => stoul_toDecimal pass.isLt
  have hnumber : ∀ pass : BitVec 64, BitVec.ofNat 64 pass.toNat = pass := fun pass => by simp
  have h := PasscodeText.more (hdash _) (hread pass0) (.more (hdash _) (hread pass1)
    (.more (hdash _) (hread pass2) (.last (hdash _) (hread pass3))))
  rwa [hnumber, hnumber, hnumber, hnumber] at h

theorem copyNodeIp_eq {ip : List Char} (hnul : '\x00' ∉ ip) (hle : ip.length ≤ 31) :
    copyNodeIp ip = ip := by
  have hall : ip.takeWhile (· ≠ '\x00') = ip := by
    refine List.takeWhile_eq_self_iff.mpr fun c hc => decide_eq_true ?_
    rintro rfl
    exact hnul hc
  rw [copyNodeIp, hall, List.take_of_length_le hle]

theorem EndpointLine.WellFormed.denotes {line : EndpointLine} (h : line.WellFormed) :
    Denotes line.text line.peer := by
  obtain ⟨isBM, ip, port, passcode⟩ := line
  have hnode : ∀ b : Bool, (if b then "BM".toList else "bob".toList) = "BM".toList ∨
      (if b then "BM".toList else "bob".toList) = "bob".toList := by decide
  have hport := portText_toDecimal h.port_pos h.port_le
  have hip : copyNodeIp ip = ip := copyNodeIp_eq h.nul h.length_le
  cases passcode with
  | none =>
      have hplain := Denotes.plain (hnode isBM) h.ip_ne h.colon hport
      dsimp only at hplain
      rw [hip] at hplain
      rw [EndpointLine.text, Option.elim_none, List.append_nil]
      exact hplain
  | some passcode =>
      obtain ⟨pass0, pass1, pass2, pass3⟩ := passcode
      have htrusted := Denotes.trusted (hnode isBM) h.ip_ne h.colon hport
        (passcodeText_toDecimal pass0 pass1 pass2 pass3)
      dsimp only at htrusted
      rw [hip] at htrusted
      exact htrusted

/-! ## All endpoints -/

/-- A line of the configuration: an endpoint, or a text that cannot be read. -/
def configText : EndpointLine ⊕ List Char → List Char := Sum.elim EndpointLine.text id

/-- Endpoints are read back in their order, whatever unreadable texts stand between them. -/
theorem parseConnection_text {config : List (EndpointLine ⊕ List Char)}
    (hlines : ∀ line, .inl line ∈ config → line.WellFormed)
    (hothers : ∀ text, .inr text ∈ config → ∀ conn, ¬ Denotes text conn)
    (connPoolAll : List ConfiguredPeer) :
    parseConnection connPoolAll (config.map configText) =
      connPoolAll ++ (config.filterMap Sum.getLeft?).map EndpointLine.peer := by
  induction config generalizing connPoolAll with
  | nil => rw [List.map_nil, List.filterMap_nil, List.map_nil, List.append_nil]; rfl
  | cons entry config ih =>
      have hrest := ih (fun line h => hlines line (List.mem_cons_of_mem _ h))
        (fun text h => hothers text (List.mem_cons_of_mem _ h))
      rw [List.map_cons, parseConnection, List.foldl_cons]
      cases entry with
      | inl line =>
          have hread : parseEndpoint (configText (.inl line)) = .ok line.peer :=
            (hlines line List.mem_cons_self).denotes.parseEndpoint
          have hcons : (Sum.inl line :: config).filterMap Sum.getLeft? =
              line :: config.filterMap Sum.getLeft? := rfl
          rw [hread, hcons, List.map_cons, List.append_cons]
          exact hrest (connPoolAll ++ [line.peer])
      | inr text =>
          have hskip := hothers text List.mem_cons_self
          cases hread : parseEndpoint (configText (.inr text)) with
          | ok conn => exact absurd (denotes_of_parseEndpoint hread) (hskip conn)
          | error e =>
              have hcons : (Sum.inr text :: config).filterMap Sum.getLeft? =
                  config.filterMap Sum.getLeft? := rfl
              rw [hcons]
              exact hrest connPoolAll

/-- A trusted node, a text without a port, and a node of its own kind. -/
theorem parseConnection_text_three :
    parseConnection [] ([Sum.inl ⟨true, "1.2.3.4".toList, 21841, some (1, 2, 3, 4)⟩,
      .inr "BM:1.2.3.4".toList, .inl ⟨false, "5.6.7.8".toList, 21842, none⟩].map configText) =
      [] ++ ([Sum.inl ⟨true, "1.2.3.4".toList, 21841, some (1, 2, 3, 4)⟩,
        .inr "BM:1.2.3.4".toList, .inl ⟨false, "5.6.7.8".toList, 21842, none⟩].filterMap
          Sum.getLeft?).map EndpointLine.peer := by
  refine parseConnection_text ?_ ?_ []
  · intro line h
    simp only [List.mem_cons, Sum.inl.injEq, reduceCtorEq, List.not_mem_nil, false_or,
      or_false] at h
    rcases h with rfl | rfl
    · exact ⟨by decide, by decide, by decide, by decide, by decide, by decide⟩
    · exact ⟨by decide, by decide, by decide, by decide, by decide, by decide⟩
  · intro text h conn hdenotes
    simp only [List.mem_cons, Sum.inr.injEq, reduceCtorEq, List.not_mem_nil, false_or,
      or_false] at h
    subst h
    have hread := hdenotes.parseEndpoint
    have herror : parseEndpoint "BM:1.2.3.4".toList = .error .expectedFormat := by decide
    rw [herror] at hread
    cases hread

end QubicBob
