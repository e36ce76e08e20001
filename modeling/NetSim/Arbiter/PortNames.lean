import NetSim.Arbiter.State
import NetSim.Library.Strings

/-!
# Names of the ports

`DramArb::getPort` finds a port by its name, `response<bank>_<upstream>` or `request<bank>`. The
numbers are read with `std::stoi`, which accepts white space and a sign in front of a number and
anything behind it. A name that is not of the form is refused only when `stoi` cannot read it or
when the number is out of range. The response ports turn every exception of `stoi` into a
`std::runtime_error`; the request ports do not catch it.
-/

namespace NetSim.Arbiter

open Library

/-- The ports of the arbiter. -/
inductive ArbPort
  /-- `responsePorts[bank][up]` -/
  | response (bank up : Nat)
  /-- `requestPorts[bank]` -/
  | request (bank : Nat)
deriving DecidableEq, Repr

/-- The exceptions of `getPort`. -/
inductive PortError
  | runtimeError (what : List Char)
  | stoi (e : StoiError)
deriving DecidableEq, Repr

/-- The `try` block of `DramArb::parseResponsePortName`: the bank and the upstream. `pos` is the
length of "response". -/
def parseResponseNumbers (ifName : List Char) (idx : Int32) : Except StoiError (Int × Int) := do
  let pos := 8
  let next := find '_' pos ifName
  let bank ← stoi (substr ifName pos (next.map (· - pos)))
  let up ← match next with
    | some next => stoi (substr ifName (next + 1) none)
    | none => .ok (if 0 ≤ idx.toInt then idx.toInt else 0)
  return (bank, up)

section GetPort

variable (numUpstreams : Int32)

/-- `DramArb::parseResponsePortName` -/
def parseResponsePortName (ifName : List Char) (idx : Int32) : Except PortError ArbPort :=
  match parseResponseNumbers ifName idx with
  | .error _ => .error (.runtimeError ("响应端口名格式错误: ".toList ++ ifName))
  | .ok (bank, up) =>
    if 0 ≤ bank ∧ bank < numBanks ∧ 0 ≤ up ∧ up < numUpstreams.toInt then
      .ok (.response bank.toNat up.toNat)
    else .error (.runtimeError ("端口索引超出范围: bank=".toList ++ (toString bank).toList ++
      ", upstream=".toList ++ (toString up).toList))

omit numUpstreams in
/-- `DramArb::parseRequestPortName` -/
def parseRequestPortName (ifName : List Char) : Except PortError ArbPort :=
  match stoi (substr ifName 7 none) with
  | .error e => .error (.stoi e)
  | .ok bank =>
    if 0 ≤ bank ∧ bank < numBanks then .ok (.request bank.toNat)
    else .error (.runtimeError ("请求端口索引超出范围: bank=".toList ++ (toString bank).toList))

/-- `DramArb::getPort` -/
def getPort (ifName : List Char) (idx : Int32) : Except PortError ArbPort :=
  if "response".toList.isPrefixOf ifName then parseResponsePortName numUpstreams ifName idx
  else if "request".toList.isPrefixOf ifName then parseRequestPortName ifName
  else .error (.runtimeError ("未知端口名: ".toList ++ ifName))

/-! ## The grammar -/

omit numUpstreams in
/-- `response<bank>_<upstream>` as `main` writes it with `std::to_string`. -/
def responseName (bank up : Nat) : List Char :=
  "response".toList ++ (Nat.toDigits 10 bank ++ '_' :: Nat.toDigits 10 up)

omit numUpstreams in
/-- The upstream of a name without an underscore. -/
def defaultUpstream (idx : Int32) : Int := if idx.toInt < 0 then 0 else idx.toInt

/-- The name of `responsePorts[bank][up]`. -/
def ResponseName (idx : Int32) (s : List Char) (bank up : Nat) : Prop :=
  bank < numBanks ∧ (up : Int) < numUpstreams.toInt ∧
    (s = responseName bank up ∨
      (s = "response".toList ++ Nat.toDigits 10 bank ∧ (up : Int) = defaultUpstream idx))

omit numUpstreams in
/-- The name of `requestPorts[bank]`. -/
def RequestName (s : List Char) (bank : Nat) : Prop :=
  bank < numBanks ∧ s = "request".toList ++ Nat.toDigits 10 bank

/-- `getPort` accepts the string exactly when it is a name, as the port of that name, and throws
`std::runtime_error` otherwise. -/
structure ExactName (idx : Int32) (s : List Char) : Prop where
  response : ∀ bank up, getPort numUpstreams s idx = .ok (.response bank up) ↔
    ResponseName numUpstreams idx s bank up
  request : ∀ bank, getPort numUpstreams s idx = .ok (.request bank) ↔ RequestName s bank
  other : (∀ bank up, ¬ ResponseName numUpstreams idx s bank up) → (∀ bank, ¬ RequestName s bank) →
    ∃ what, getPort numUpstreams s idx = .error (.runtimeError what)

/-- The numbers in the string can be read, and those that are in range are written as nothing but
their decimal digits. -/
structure PlainNumbers (idx : Int32) (s : List Char) : Prop where
  /-- Behind "request" there is an `int`, and if that is a bank, there is nothing else. -/
  request : ∀ t, s = "request".toList ++ t →
    ∃ v, Reads t v ∧ IsInt v ∧ ∀ bank : Nat, v = bank → bank < numBanks → t = Nat.toDigits 10 bank
  /-- A bank behind "response", without an underscore. -/
  bank : ∀ t (bank : Nat), s = "response".toList ++ t → '_' ∉ t → Reads t bank → bank < numBanks →
    defaultUpstream idx < numUpstreams.toInt → t = Nat.toDigits 10 bank
  /-- A bank and an upstream behind "response". -/
  both : ∀ t t' (bank up : Nat), s = "response".toList ++ (t ++ '_' :: t') → '_' ∉ t →
    Reads t bank → Reads t' up → bank < numBanks → (up : Int) < numUpstreams.toInt →
    t = Nat.toDigits 10 bank ∧ t' = Nat.toDigits 10 up

end GetPort

variable {n idx : Int32} {s t t' : List Char} {bank up : Nat}

/-! ## Strings that begin with "request" -/

theorem getPort_request (n idx : Int32) (t : List Char) :
    getPort n ("request".toList ++ t) idx = parseRequestPortName ("request".toList ++ t) := rfl

theorem parseRequestPortName_eq (t : List Char) :
    parseRequestPortName ("request".toList ++ t) =
      match stoi t with
      | .error e => .error (.stoi e)
      | .ok bank =>
        if 0 ≤ bank ∧ bank < numBanks then .ok (.request bank.toNat)
        else .error (.runtimeError
          ("请求端口索引超出范围: bank=".toList ++ (toString bank).toList)) := rfl

/-- Numbers that fit. -/
theorem isInt_bank (h : bank < numBanks) : IsInt bank := by
  unfold numBanks at h
  unfold IsInt
  omega

theorem isInt_up (h : (up : Int) < n.toInt) : IsInt up := by
  have hn := n.toInt_lt
  unfold IsInt
  omega

theorem getPort_request_ok_iff {p : ArbPort} :
    getPort n ("request".toList ++ t) idx = .ok p ↔
      ∃ bank : Nat, Reads t bank ∧ bank < numBanks ∧ p = .request bank := by
  rw [getPort_request, parseRequestPortName_eq]
  constructor
  · intro h
    split at h
    · cases h
    · rename_i v hv
      split at h
      · rename_i hrange
        cases h
        obtain ⟨bank, rfl⟩ := Int.eq_ofNat_of_zero_le hrange.1
        exact ⟨bank, (stoi_eq_ok_iff.mp hv).1, by omega, rfl⟩
      · cases h
  · rintro ⟨bank, hreads, hbank, rfl⟩
    rw [stoi_eq_ok_iff.mpr ⟨hreads, isInt_bank hbank⟩]
    exact if_pos ⟨by omega, by omega⟩

/-- Only what `stoi` throws is not a `std::runtime_error`. -/
theorem getPort_request_error_iff :
    (∀ e, getPort n ("request".toList ++ t) idx = .error e → ∃ what, e = .runtimeError what) ↔
      ∃ v, Reads t v ∧ IsInt v := by
  rw [getPort_request, parseRequestPortName_eq]
  constructor
  · intro h
    cases hv : stoi t with
    | error e =>
      rw [hv] at h
      obtain ⟨what, hwhat⟩ := h _ rfl
      cases hwhat
    | ok v => exact ⟨v, stoi_eq_ok_iff.mp hv⟩
  · rintro ⟨v, hv⟩ e he
    rw [stoi_eq_ok_iff.mpr hv] at he
    dsimp only at he
    split at he
    · cases he
    · cases he
      exact ⟨_, rfl⟩

/-! ## Strings that begin with "response" -/

theorem getPort_response (n idx : Int32) (t : List Char) :
    getPort n ("response".toList ++ t) idx =
      parseResponsePortName n ("response".toList ++ t) idx := rfl

theorem getPort_response_ok_iff {p : ArbPort} :
    getPort n ("response".toList ++ t) idx = .ok p ↔
      ∃ bank up : Nat, parseResponseNumbers ("response".toList ++ t) idx = .ok (↑bank, ↑up) ∧
        bank < numBanks ∧ (up : Int) < n.toInt ∧ p = .response bank up := by
  rw [getPort_response, parseResponsePortName]
  constructor
  · intro h
    split at h
    · cases h
    · rename_i b u hparsed
      split at h
      · rename_i hrange
        cases h
        obtain ⟨bank, rfl⟩ := Int.eq_ofNat_of_zero_le hrange.1
        obtain ⟨up, rfl⟩ := Int.eq_ofNat_of_zero_le hrange.2.2.1
        exact ⟨bank, up, hparsed, by omega, hrange.2.2.2, rfl⟩
      · cases h
  · rintro ⟨bank, up, hparsed, hbank, hup, rfl⟩
    rw [hparsed]
    exact if_pos ⟨by omega, by omega, by omega, hup⟩

theorem getPort_response_error {e : PortError}
    (h : getPort n ("response".toList ++ t) idx = .error e) : ∃ what, e = .runtimeError what := by
  rw [getPort_response, parseResponsePortName] at h
  split at h
  · cases h
    exact ⟨_, rfl⟩
  · split at h
    · cases h
    · cases h
      exact ⟨_, rfl⟩

/-- What the `try` block returns when the two texts are known. -/
theorem except_pair_eq_ok_iff {x y : Except StoiError Int} {b u : Int} :
    (do let bank ← x; let up ← y; return (bank, up) : Except StoiError (Int × Int)) = .ok (b, u) ↔
      x = .ok b ∧ y = .ok u := by
  cases x with
  | error e => exact iff_of_false nofun fun h => nomatch h.1
  | ok bank =>
    cases y with
    | error e => exact iff_of_false nofun fun h => nomatch h.2
    | ok up =>
      show Except.ok (bank, up) = Except.ok (b, u) ↔ _
      simp

theorem defaultUpstream_nonneg (idx : Int32) : 0 ≤ defaultUpstream idx := by
  unfold defaultUpstream
  split <;> omega

/-- Without an underscore, the upstream comes from `idx`. -/
theorem parseResponseNumbers_bank {b u : Int} (ht : '_' ∉ t) :
    parseResponseNumbers ("response".toList ++ t) idx = .ok (b, u) ↔
      (Reads t b ∧ IsInt b) ∧ defaultUpstream idx = u := by
  have hfind : find '_' 8 ("response".toList ++ t) = none := find_eq_none "response".toList ht
  have hbank : substr ("response".toList ++ t) 8 none = t := rfl
  have hidx : (if 0 ≤ idx.toInt then idx.toInt else 0) = defaultUpstream idx := by
    unfold defaultUpstream
    split <;> split <;> omega
  unfold parseResponseNumbers
  dsimp only
  rw [hfind, Option.map_none, hbank, hidx, except_pair_eq_ok_iff, stoi_eq_ok_iff,
    Except.ok.injEq]

/-- The upstream stands behind the first underscore. -/
theorem parseResponseNumbers_both {b u : Int} (ht : '_' ∉ t) :
    parseResponseNumbers ("response".toList ++ (t ++ '_' :: t')) idx = .ok (b, u) ↔
      (Reads t b ∧ IsInt b) ∧ Reads t' u ∧ IsInt u := by
  have hfind : find '_' 8 ("response".toList ++ (t ++ '_' :: t')) = some (8 + t.length) :=
    find_append "response".toList t' ht
  have hbank : substr ("response".toList ++ (t ++ '_' :: t')) 8 (some (8 + t.length - 8)) = t := by
    rw [Nat.add_sub_cancel_left]
    exact substr_append "response".toList t _
  have hup : substr ("response".toList ++ (t ++ '_' :: t')) (8 + t.length + 1) none = t' :=
    substr_append_cons "response".toList t t' '_'
  unfold parseResponseNumbers
  dsimp only
  rw [hfind, Option.map_some, hbank]
  dsimp only
  rw [hup, except_pair_eq_ok_iff, stoi_eq_ok_iff, stoi_eq_ok_iff]

/-! ## Names are accepted -/

theorem getPort_of_requestName (h : RequestName s bank) :
    getPort n s idx = .ok (.request bank) := by
  obtain ⟨hbank, rfl⟩ := h
  exact getPort_request_ok_iff.mpr ⟨bank, reads_toDigits bank, hbank, rfl⟩

theorem getPort_of_responseName (h : ResponseName n idx s bank up) :
    getPort n s idx = .ok (.response bank up) := by
  obtain ⟨hbank, hup, hs⟩ := h
  have hread : Reads (Nat.toDigits 10 bank) bank ∧ IsInt bank :=
    ⟨reads_toDigits bank, isInt_bank hbank⟩
  rcases hs with rfl | ⟨rfl, hidx⟩
  · refine getPort_response_ok_iff.mpr ⟨bank, up, ?_, hbank, hup, rfl⟩
    exact (parseResponseNumbers_both Nat.underscore_not_in_toDigits).mpr
      ⟨hread, reads_toDigits up, isInt_up hup⟩
  · refine getPort_response_ok_iff.mpr ⟨bank, up, ?_, hbank, hup, rfl⟩
    exact (parseResponseNumbers_bank Nat.underscore_not_in_toDigits).mpr ⟨hread, hidx.symm⟩

/-- What remains to be shown of a string: it is accepted only as a name, and refused only with a
`std::runtime_error`. -/
theorem exactName_iff :
    ExactName n idx s ↔
      (∀ bank up, getPort n s idx = .ok (.response bank up) → ResponseName n idx s bank up) ∧
      (∀ bank, getPort n s idx = .ok (.request bank) → RequestName s bank) ∧
      ∀ e, getPort n s idx = .error e → ∃ what, e = .runtimeError what := by
  constructor
  · intro h
    refine ⟨fun bank up => (h.response bank up).mp, fun bank => (h.request bank).mp, ?_⟩
    intro e he
    obtain ⟨what, hwhat⟩ := h.other
      (fun bank up hname => by
        rw [getPort_of_responseName hname] at he
        cases he)
      (fun bank hname => by
        rw [getPort_of_requestName hname] at he
        cases he)
    rw [hwhat] at he
    cases he
    exact ⟨what, rfl⟩
  · rintro ⟨hresponse, hrequest, herror⟩
    refine ⟨fun bank up => ⟨hresponse bank up, getPort_of_responseName⟩,
      fun bank => ⟨hrequest bank, getPort_of_requestName⟩, fun hno hno' => ?_⟩
    cases hport : getPort n s idx with
    | error e =>
      obtain ⟨what, rfl⟩ := herror e hport
      exact ⟨what, rfl⟩
    | ok port =>
      cases port with
      | response bank up => exact absurd (hresponse bank up hport) (hno bank up)
      | request bank => exact absurd (hrequest bank hport) (hno' bank)

/-! ## Strings that are accepted or refused as they should be -/

theorem request_ne_response (t t' : List Char) :
    "request".toList ++ t ≠ "response".toList ++ t' := by
  intro h
  have hthird : some 'q' = some 's' := congrArg (fun s => s[2]?) h
  exact absurd hthird (by decide)

theorem exactName_request_iff :
    ExactName n idx ("request".toList ++ t) ↔
      (∀ bank : Nat, Reads t bank → bank < numBanks → t = Nat.toDigits 10 bank) ∧
        ∃ v, Reads t v ∧ IsInt v := by
  rw [exactName_iff, getPort_request_error_iff]
  simp only [getPort_request_ok_iff]
  constructor
  · rintro ⟨-, hname, hint⟩
    refine ⟨fun bank hreads hbank => ?_, hint⟩
    obtain ⟨-, heq⟩ := hname bank ⟨bank, hreads, hbank, rfl⟩
    exact List.append_cancel_left heq
  · rintro ⟨hplain, hint⟩
    refine ⟨?_, ?_, hint⟩
    · rintro bank up ⟨_, -, -, hport⟩
      cases hport
    · rintro _ ⟨_, hreads, hbank, ⟨⟩⟩
      exact ⟨hbank, by rw [← hplain _ hreads hbank]⟩

theorem exactName_bank_iff (ht : '_' ∉ t) :
    ExactName n idx ("response".toList ++ t) ↔
      ∀ bank : Nat, Reads t bank → bank < numBanks → defaultUpstream idx < n.toInt →
        t = Nat.toDigits 10 bank := by
  rw [exactName_iff]
  simp only [getPort_response_ok_iff, parseResponseNumbers_bank ht]
  constructor
  · rintro ⟨hname, -, -⟩ bank hbank hbanks hidx
    obtain ⟨up, hup⟩ := Int.eq_ofNat_of_zero_le (defaultUpstream_nonneg idx)
    rw [hup] at hidx
    obtain ⟨-, -, hs | ⟨hs, -⟩⟩ := hname bank up
      ⟨bank, up, ⟨⟨hbank, isInt_bank hbanks⟩, hup⟩, hbanks, hidx, rfl⟩
    · have hmem : '_' ∈ t := by
        rw [List.append_cancel_left hs]
        simp
      exact absurd hmem ht
    · exact List.append_cancel_left hs
  · intro hplain
    refine ⟨?_, ?_, fun e => getPort_response_error⟩
    · rintro _ _ ⟨_, _, ⟨⟨hbank, -⟩, hidx⟩, hbanks, hups, ⟨⟩⟩
      have heq := hplain _ hbank hbanks (hidx ▸ hups)
      exact ⟨hbanks, hups, .inr ⟨by rw [← heq], hidx.symm⟩⟩
    · rintro bank ⟨_, _, -, -, -, hport⟩
      cases hport

theorem exactName_both_iff (ht : '_' ∉ t) :
    ExactName n idx ("response".toList ++ (t ++ '_' :: t')) ↔
      ∀ bank up : Nat, Reads t bank → Reads t' up → bank < numBanks → (up : Int) < n.toInt →
        t = Nat.toDigits 10 bank ∧ t' = Nat.toDigits 10 up := by
  rw [exactName_iff]
  simp only [getPort_response_ok_iff, parseResponseNumbers_both ht]
  constructor
  · rintro ⟨hname, -, -⟩ bank up hbank hup hbanks hups
    obtain ⟨-, -, hs | ⟨hs, -⟩⟩ := hname bank up
      ⟨bank, up, ⟨⟨hbank, isInt_bank hbanks⟩, hup, isInt_up hups⟩, hbanks, hups, rfl⟩
    · exact (append_cons_inj ht Nat.underscore_not_in_toDigits).mp (List.append_cancel_left hs)
    · have hmem : '_' ∈ Nat.toDigits 10 bank := by
        rw [← List.append_cancel_left hs]
        simp
      exact absurd hmem Nat.underscore_not_in_toDigits
  · intro hplain
    refine ⟨?_, ?_, fun e => getPort_response_error⟩
    · rintro _ _ ⟨_, _, ⟨⟨hbank, -⟩, hup, -⟩, hbanks, hups, ⟨⟩⟩
      obtain ⟨rfl, rfl⟩ := hplain _ _ hbank hup hbanks hups
      exact ⟨hbanks, hups, .inl rfl⟩
    · rintro bank ⟨_, _, -, -, -, hport⟩
      cases hport

/-- A string of neither form is refused. -/
theorem exactName_other (hresponse : ∀ t, s ≠ "response".toList ++ t)
    (hrequest : ∀ t, s ≠ "request".toList ++ t) : ExactName n idx s := by
  have hport : getPort n s idx = .error (.runtimeError ("未知端口名: ".toList ++ s)) := by
    unfold getPort
    rw [if_neg, if_neg]
    · rw [List.isPrefixOf_iff_prefix]
      rintro ⟨t, ht⟩
      exact hrequest t ht.symm
    · rw [List.isPrefixOf_iff_prefix]
      rintro ⟨t, ht⟩
      exact hresponse t ht.symm
  rw [exactName_iff, hport]
  refine ⟨nofun, nofun, ?_⟩
  rintro e ⟨⟩
  exact ⟨_, rfl⟩

/-! ## The condition -/

theorem plainNumbers_both_iff (ht : '_' ∉ t) :
    PlainNumbers n idx ("response".toList ++ (t ++ '_' :: t')) ↔
      ∀ bank up : Nat, Reads t bank → Reads t' up → bank < numBanks → (up : Int) < n.toInt →
        t = Nat.toDigits 10 bank ∧ t' = Nat.toDigits 10 up := by
  constructor
  · intro h bank up
    exact h.both t t' bank up rfl ht
  · intro h
    refine ⟨fun u hu => absurd hu.symm (request_ne_response _ _), ?_, ?_⟩
    · intro u bank hu hno
      rw [← List.append_cancel_left hu] at hno
      simp at hno
    · intro u u' bank up hu hno
      obtain ⟨rfl, rfl⟩ := (append_cons_inj ht hno).mp (List.append_cancel_left hu)
      exact h bank up

theorem plainNumbers_bank_iff (ht : '_' ∉ t) :
    PlainNumbers n idx ("response".toList ++ t) ↔
      ∀ bank : Nat, Reads t bank → bank < numBanks → defaultUpstream idx < n.toInt →
        t = Nat.toDigits 10 bank := by
  constructor
  · intro h bank
    exact h.bank t bank rfl ht
  · intro h
    refine ⟨fun u hu => absurd hu.symm (request_ne_response _ _), ?_, ?_⟩
    · intro u bank hu _
      obtain rfl := List.append_cancel_left hu
      exact h bank
    · intro u u' bank up hu
      rw [List.append_cancel_left hu] at ht
      simp at ht

theorem plainNumbers_request_iff :
    PlainNumbers n idx ("request".toList ++ t) ↔
      (∀ bank : Nat, Reads t bank → bank < numBanks → t = Nat.toDigits 10 bank) ∧
        ∃ v, Reads t v ∧ IsInt v := by
  constructor
  · intro h
    obtain ⟨v, hv, hint, hplain⟩ := h.request t rfl
    exact ⟨fun bank hreads hbank => hplain bank (hv.unique hreads) hbank, v, hv, hint⟩
  · rintro ⟨hplain, v, hv, hint⟩
    refine ⟨?_, fun u bank hu => absurd hu (request_ne_response _ _),
      fun u u' bank up hu => absurd hu (request_ne_response _ _)⟩
    intro u hu
    obtain rfl := List.append_cancel_left hu
    refine ⟨v, hv, hint, ?_⟩
    rintro bank rfl hbank
    exact hplain bank hv hbank

theorem exactName_iff_plainNumbers : ExactName n idx s ↔ PlainNumbers n idx s := by
  by_cases hresponse : ∃ t, s = "response".toList ++ t
  · obtain ⟨t, rfl⟩ := hresponse
    by_cases hline : '_' ∈ t
    · obtain ⟨t, t', rfl, ht⟩ := List.eq_append_cons_of_mem hline
      rw [exactName_both_iff ht, plainNumbers_both_iff ht]
    · rw [exactName_bank_iff hline, plainNumbers_bank_iff hline]
  · by_cases hrequest : ∃ t, s = "request".toList ++ t
    · obtain ⟨t, rfl⟩ := hrequest
      rw [exactName_request_iff, plainNumbers_request_iff]
    · refine iff_of_true (exactName_other ?_ ?_) ⟨?_, ?_, ?_⟩
      · exact fun t ht => hresponse ⟨t, ht⟩
      · exact fun t ht => hrequest ⟨t, ht⟩
      · exact fun t ht => absurd ⟨t, ht⟩ hrequest
      · exact fun t bank ht => absurd ⟨t, ht⟩ hresponse
      · exact fun t t' bank up ht => absurd ⟨_, ht⟩ hresponse

/-- **Port names.** `getPort` accepts exactly the names of the ports and throws `std::runtime_error`
for every other string, if and only if the numbers in the string can be read and those that are in
range are written in plain decimal. The names that `main` builds come back as their ports. -/
theorem getPort_exact_iff (numUpstreams : Int32) :
    (∀ idx s, ExactName numUpstreams idx s ↔ PlainNumbers numUpstreams idx s) ∧
      ∀ (idx : Int32) (bank up : Nat), bank < numBanks → (up : Int) < numUpstreams.toInt →
        getPort numUpstreams (responseName bank up) idx = .ok (.response bank up) :=
  ⟨fun _ _ => exactName_iff_plainNumbers, fun _ _ _ hbank hup =>
    getPort_of_responseName ⟨hbank, hup, .inl rfl⟩⟩

/-- A request port without a number throws what `stoi` throws, and a response port is found under a
name with something behind the number. -/
theorem getPort_not_exact :
    getPort 4 "requestx".toList (-1) = .error (.stoi .invalidArgument) ∧
      ¬ ExactName 4 (-1) "requestx".toList ∧
      getPort 4 "response3_1x".toList (-1) = .ok (.response 3 1) ∧
      ¬ ExactName 4 (-1) "response3_1x".toList := by
  have hrequest : getPort 4 "requestx".toList (-1) = .error (.stoi .invalidArgument) := by rfl
  have hresponse : getPort 4 "response3_1x".toList (-1) = .ok (.response 3 1) := by rfl
  refine ⟨hrequest, fun h => ?_, hresponse, fun h => ?_⟩
  · obtain ⟨what, hwhat⟩ := (exactName_iff.mp h).2.2 _ hrequest
    cases hwhat
  · obtain ⟨-, -, hs | ⟨hs, -⟩⟩ := (h.response 3 1).mp hresponse
    · exact absurd hs (by decide)
    · exact absurd hs (by decide)

end NetSim.Arbiter
