import AdServer.Scenario.Address
import AdServer.Url.Mangled
import AdServer.Url.PlainText

/-!
`toUrl` and the constructor that reads such a text. The constructor looks for the port at the
':' of the text before it has found the end of the host, so that one in the path or in a
parameter can be taken for the one in front of the port or for that of a second protocol.
-/
namespace AdServer.Url

def toUrl (helper : URLHelper) (order macroOrder : List (Bytes × Bytes)) : Bytes :=
  let data := toUrlParam order macroOrder
  (if helper.protocolName = [] then bytes "http://" else helper.protocolName ++ bytes "://") ++
    (if helper.host = [] then [] else helper.host) ++
    (if helper.port = [] then [] else bytes ":" ++ helper.port) ++
    (if helper.path = [] then [] else helper.path) ++
    (if data = [] then [] else bytes "?" ++ data)

/-- `pos < url.length() - n`, a subtraction of `size_t`. -/
def beforeEnd (url : Bytes) (pos n : Nat) : Bool := url.length < n ∨ pos + n < url.length

structure HostScan where
  protocolName : Bytes
  host : Bytes
  port : Bytes
  hostBegin : Nat

theorem findFrom_spec {url : Bytes} {c : UInt8} {pos i : Nat} (h : findFrom url [c] pos = some i) :
    pos ≤ i ∧ url[i]? = some c := by
  have hfound := List.find?_some h
  rwa [decide_eq_true_eq, Rewriting.singleton_prefix_drop_iff] at hfound

/-- The loop of the constructor over the ':' of the text. -/
def scanHost (url : Bytes) (pos : Nat) (st : HostScan) : HostScan :=
  match h : findFrom url [byte ':'] pos with
  | none => st
  | some i =>
    if beforeEnd url i 3 ∧ charAt url (i + 1) = byte '/' ∧ charAt url (i + 2) = byte '/' then
      scanHost url (i + 3) { st with protocolName := url.take i, hostBegin := i + 3 }
    else if beforeEnd url i 2 ∧ isDigit (charAt url (i + 1)) then
      { st with
        host := (url.take i).drop st.hostBegin
        port := intToString (Scenario.atoi (url.drop (i + 1))) }
    else st
termination_by url.length - pos
decreasing_by
  obtain ⟨hle, hget⟩ := findFrom_spec h
  have := (List.getElem?_eq_some_iff.mp hget).1
  omega

section
variable (lib : Base64Lib) (strays : Nat → Stray) (table : List ParamBindingItem)

/-- The constructor of a `URLHelper` from a text. -/
def urlHelper (url : Bytes) (encoded : Bool) : URLHelper :=
  let st := scanHost url 0 ⟨[], [], [], 0⟩
  match findFrom url [byte '/'] st.hostBegin with
  | none => ⟨∅, ∅, st.protocolName, st.host, st.port, []⟩
  | some pos =>
    let host := if st.host = [] then (url.take pos).drop st.hostBegin else st.host
    match findFrom url [byte '?'] pos with
    | some i =>
      ⟨processParamDataWithRetry lib strays table (url.drop (i + 1)) encoded ∅, ∅,
        st.protocolName, host, st.port, (url.take i).drop pos⟩
    | none => ⟨∅, ∅, st.protocolName, host, st.port, url.drop pos⟩

def fromUrl (url : Bytes) : URLHelper := urlHelper lib strays table url false

end

/-- Behind a ':' stands "//" and something more. -/
def opensProtocol (after : Bytes) : Bool :=
  3 ≤ after.length ∧ charAt after 0 = byte '/' ∧ charAt after 1 = byte '/'

/-- Behind a ':' stands a digit and something more. -/
def opensPort (after : Bytes) : Bool := 2 ≤ after.length ∧ isDigit (charAt after 0)

theorem lt_length_of_charAt {s : Bytes} {i : Nat} (h : charAt s i ≠ 0) : i < s.length := by
  by_contra hge
  exact h (by simp [charAt, List.getElem?_eq_none (Nat.le_of_not_lt hge)])

section
variable {u after : Bytes} {i : Nat} (hu : u.length = i + 1)
include hu

theorem beforeEnd_protocol_iff :
    (beforeEnd (u ++ after) i 3 ∧ charAt after 0 = byte '/' ∧ charAt after 1 = byte '/') ↔
      opensProtocol after = true := by
  have hslash : byte '/' ≠ 0 := by decide
  simp only [beforeEnd, opensProtocol, List.length_append, hu, decide_eq_true_eq]
  refine and_congr_left fun h => ?_
  have hlt : 1 < after.length := lt_length_of_charAt (h.2 ▸ hslash)
  omega

theorem beforeEnd_port_iff :
    (beforeEnd (u ++ after) i 2 ∧ isDigit (charAt after 0) = true) ↔ opensPort after = true := by
  simp only [beforeEnd, opensPort, List.length_append, hu, decide_eq_true_eq]
  refine and_congr_left fun h => ?_
  have hlt : 0 < after.length := by
    refine lt_length_of_charAt fun hzero => ?_
    rw [hzero] at h
    exact absurd h (by decide)
  omega

end

section
variable {front middle after : Bytes}

/-- A round of the loop. -/
theorem scanHost_colon (front after : Bytes) (hmiddle : byte ':' ∉ middle) (st : HostScan) :
    scanHost (front ++ (middle ++ byte ':' :: after)) front.length st =
      if opensProtocol after then
        scanHost (front ++ (middle ++ byte ':' :: after)) (front.length + middle.length + 3)
          { st with
            protocolName := front ++ middle
            hostBegin := front.length + middle.length + 3 }
      else if opensPort after then
        { st with
          host := (front ++ middle).drop st.hostBegin
          port := intToString (Scenario.atoi after) }
      else st := by
  have hsplit : front ++ (middle ++ byte ':' :: after) =
      (front ++ middle ++ [byte ':']) ++ after := by simp
  have hlen : (front ++ middle ++ [byte ':']).length = front.length + middle.length + 1 := by
    rw [List.length_append, List.length_append, List.length_singleton]
  have hchar : ∀ k, charAt (front ++ (middle ++ byte ':' :: after))
      (front.length + middle.length + 1 + k) = charAt after k := by
    intro k
    rw [hsplit, ← hlen, charAt_append_right]
  have htake : (front ++ (middle ++ byte ':' :: after)).take (front.length + middle.length) =
      front ++ middle := by
    rw [← List.append_assoc, ← List.length_append, List.take_left]
  have hdrop : (front ++ (middle ++ byte ':' :: after)).drop (front.length + middle.length + 1) =
      after := by
    rw [hsplit, ← hlen, List.drop_left]
  have hprotocol := @beforeEnd_protocol_iff _ after _ hlen
  have hport := @beforeEnd_port_iff _ after _ hlen
  rw [← hsplit] at hprotocol hport
  rw [scanHost]
  split
  · rename_i hfind
    rw [findFrom_some hmiddle] at hfind
    cases hfind
  · rename_i i hfind
    rw [findFrom_some hmiddle] at hfind
    obtain rfl := Option.some.inj hfind
    simp only [hchar 0, hchar 1, htake, hdrop, hprotocol, hport]

theorem scanHost_end (front : Bytes) (hmiddle : byte ':' ∉ middle) (st : HostScan) :
    scanHost (front ++ middle) front.length st = st := by
  rw [scanHost]
  split
  · rfl
  · rename_i i hfind
    rw [findFrom_none hmiddle] at hfind
    cases hfind

end

theorem length_protocolName_le (url : Bytes) (pos : Nat) (st : HostScan)
    (h : st.protocolName.length ≤ pos) :
    st.protocolName.length ≤ (scanHost url pos st).protocolName.length := by
  fun_induction scanHost url pos st with
  | case1 pos st hfind => exact Nat.le_refl _
  | case2 pos st i hfind hopens ih =>
      obtain ⟨hle, hget⟩ := findFrom_spec hfind
      have hlt := (List.getElem?_eq_some_iff.mp hget).1
      have hlen : (url.take i).length = i := List.length_take_of_le (Nat.le_of_lt hlt)
      rw [hlen] at ih
      have := ih (Nat.le_add_right i 3)
      omega
  | case3 pos st i hfind hopens hport => exact Nat.le_refl _
  | case4 pos st i hfind hopens hport => exact Nat.le_refl _

section
variable {lib : Base64Lib} {strays : Nat → Stray} {table : List ParamBindingItem}

theorem protocolName_fromUrl (url : Bytes) :
    (fromUrl lib strays table url).protocolName =
      (scanHost url 0 ⟨[], [], [], 0⟩).protocolName := by
  simp only [fromUrl, urlHelper]
  split
  · rfl
  · split <;> rfl

theorem host_fromUrl {url : Bytes} (h : (scanHost url 0 ⟨[], [], [], 0⟩).host ≠ []) :
    (fromUrl lib strays table url).host = (scanHost url 0 ⟨[], [], [], 0⟩).host := by
  simp only [fromUrl, urlHelper, if_neg h]
  split
  · rfl
  · split <;> rfl

def queryText (data : Bytes) : Bytes := if data = [] then [] else byte '?' :: data

/-- What the constructor makes of a text whose host part ends at the first '/'. -/
theorem fromUrl_eq {front hostPart path data : Bytes} {st : HostScan}
    (hscan : scanHost (front ++ (hostPart ++ (path ++ queryText data))) 0 ⟨[], [], [], 0⟩ = st)
    (hbegin : st.hostBegin = front.length) (hhost : byte '/' ∉ hostPart)
    (hpath : path.head? = some (byte '/')) (hquery : byte '?' ∉ path) :
    fromUrl lib strays table (front ++ (hostPart ++ (path ++ queryText data))) =
      ⟨if data = [] then ∅ else processParamDataWithRetry lib strays table data false ∅, ∅,
        st.protocolName, if st.host = [] then hostPart else st.host, st.port, path⟩ := by
  obtain ⟨rest, rfl⟩ : ∃ rest, path = byte '/' :: rest := List.head?_eq_some_iff.mp hpath
  have hslash : findFrom (front ++ (hostPart ++ (byte '/' :: rest ++ queryText data))) [byte '/']
      front.length = some (front ++ hostPart).length := by
    rw [List.cons_append, findFrom_some hhost, List.length_append]
  have hsplit : front ++ (hostPart ++ (byte '/' :: rest ++ queryText data)) =
      (front ++ hostPart) ++ (byte '/' :: rest ++ queryText data) := by simp
  have hhostText : ((front ++ (hostPart ++ (byte '/' :: rest ++ queryText data))).take
      (front ++ hostPart).length).drop front.length = hostPart := by
    rw [hsplit, List.take_left, List.drop_left]
  simp only [fromUrl, urlHelper, hscan, hbegin, hslash, hhostText]
  by_cases hdata : data = []
  · have hnone : findFrom (front ++ (hostPart ++ (byte '/' :: rest ++ queryText data))) [byte '?']
        (front ++ hostPart).length = none := by
      rw [hsplit, findFrom_none (by simpa [queryText, hdata] using hquery)]
    have hrest : (front ++ (hostPart ++ (byte '/' :: rest ++ queryText data))).drop
        (front ++ hostPart).length = byte '/' :: rest := by
      rw [hsplit, List.drop_left, queryText, if_pos hdata, List.append_nil]
    simp only [hnone, hrest, if_pos hdata]
  · have hquestion : (front ++ hostPart) ++ (byte '/' :: rest ++ queryText data) =
        ((front ++ hostPart) ++ byte '/' :: rest) ++ byte '?' :: data := by
      rw [queryText, if_neg hdata, ← List.append_assoc]
    have hsome : findFrom (front ++ (hostPart ++ (byte '/' :: rest ++ queryText data))) [byte '?']
        (front ++ hostPart).length = some ((front ++ hostPart) ++ byte '/' :: rest).length := by
      rw [hsplit, hquestion, List.append_assoc, findFrom_some hquery,
        ← List.length_append]
    have hpathText : ((front ++ (hostPart ++ (byte '/' :: rest ++ queryText data))).take
        ((front ++ hostPart) ++ byte '/' :: rest).length).drop (front ++ hostPart).length =
          byte '/' :: rest := by
      rw [hsplit, hquestion, List.take_left, List.drop_left]
    have hdataText : (front ++ (hostPart ++ (byte '/' :: rest ++ queryText data))).drop
        (((front ++ hostPart) ++ byte '/' :: rest).length + 1) = data := by
      rw [hsplit, hquestion, ← List.drop_drop, List.drop_left, List.drop_one, List.tail_cons]
    simp only [hsome, hpathText, hdataText, if_neg hdata]

end

/-! ### Printing and parsing -/

def isAlpha (c : UInt8) : Bool := (65 ≤ c ∧ c ≤ 90) ∨ (97 ≤ c ∧ c ≤ 122)

/-- An address of the form that is printed and read back, with an order of its parameters. -/
structure PlainUrl (helper : URLHelper) (order : List (Bytes × Bytes)) : Prop where
  protocolName : helper.protocolName ≠ []
  alphabetic : ∀ c ∈ helper.protocolName, isAlpha c = true
  hostColon : byte ':' ∉ helper.host
  hostSlash : byte '/' ∉ helper.host
  port : helper.port = [] ∨ ∃ n, 1 ≤ n ∧ n ≤ 65535 ∧ helper.port = decimal n
  path : helper.path.head? = some (byte '/')
  noQuery : byte '?' ∉ helper.path
  traversal : helper.paramMap.Traversal order
  plain : ∀ key value, helper.paramMap.lookup key = some value → PlainEntry (key, value)
  short : (toUrlParam order []).length < 2048

def SameUrl (a b : URLHelper) : Prop :=
  a.protocolName = b.protocolName ∧ a.host = b.host ∧ a.port = b.port ∧ a.path = b.path ∧
    a.paramMap = b.paramMap

/-- The first ':' of the text behind the host, if there is one, opens nothing. -/
def colonHarmless (text : Bytes) : Bool :=
  match text.dropWhile (· ≠ byte ':') with
  | [] => true
  | _ :: after => !opensProtocol after && !opensPort after

def portText (port : Bytes) : Bytes := if port = [] then [] else byte ':' :: port

namespace PlainUrl

variable {helper : URLHelper} {order : List (Bytes × Bytes)}

def front (helper : URLHelper) : Bytes := helper.protocolName ++ bytes "://"

def tail (helper : URLHelper) (order : List (Bytes × Bytes)) : Bytes :=
  helper.path ++ queryText (toUrlParam order [])

theorem toUrl_eq (h : PlainUrl helper order) :
    toUrl helper order [] =
      front helper ++ (helper.host ++ portText helper.port ++ tail helper order) := by
  have hpath : helper.path ≠ [] := fun hnil => by simpa [hnil] using h.path
  have hcolon : bytes ":" = [byte ':'] := by decide
  have hquestion : bytes "?" = [byte '?'] := by decide
  have hhost : (if helper.host = [] then [] else helper.host) = helper.host := by
    split
    · rename_i hnil
      rw [hnil]
    · rfl
  simp only [toUrl, if_neg h.protocolName, if_neg hpath, hcolon, hquestion, hhost, front, tail,
    portText, queryText, List.append_assoc, List.singleton_append]

theorem colon_notMem_protocolName (h : PlainUrl helper order) :
    byte ':' ∉ helper.protocolName := fun hmem => absurd (h.alphabetic _ hmem) (by decide)

theorem tail_ne_nil (h : PlainUrl helper order) : tail helper order ≠ [] := by
  obtain ⟨rest, hrest⟩ := List.head?_eq_some_iff.mp h.path
  simp [tail, hrest]

/-- The first round finds the protocol. -/
theorem scanHost_front (h : PlainUrl helper order) (text : Bytes) :
    scanHost (front helper ++ (text ++ tail helper order)) 0 ⟨[], [], [], 0⟩ =
      scanHost (front helper ++ (text ++ tail helper order)) (front helper).length
        ⟨helper.protocolName, [], [], (front helper).length⟩ := by
  have hsplit : front helper ++ (text ++ tail helper order) =
      [] ++ (helper.protocolName ++ byte ':' ::
        (byte '/' :: byte '/' :: (text ++ tail helper order))) := by
    have hlit : bytes "://" = [byte ':', byte '/', byte '/'] := by decide
    simp [front, hlit]
  have hopens : opensProtocol (byte '/' :: byte '/' :: (text ++ tail helper order)) = true := by
    have hlen := List.length_pos_iff.mpr h.tail_ne_nil
    simp only [opensProtocol, charAt, List.length_cons, List.length_append, decide_eq_true_eq]
    exact ⟨by omega, rfl, rfl⟩
  have hlen : (front helper).length = helper.protocolName.length + 3 := List.length_append
  have hround := scanHost_colon [] (byte '/' :: byte '/' :: (text ++ tail helper order))
    h.colon_notMem_protocolName ⟨[], [], [], 0⟩
  rw [if_pos hopens, ← hsplit] at hround
  simpa [hlen] using hround

variable {lib : Base64Lib} {strays : Nat → Stray} {table : List ParamBindingItem}

theorem paramMap_eq (h : PlainUrl helper order) :
    (if toUrlParam order [] = [] then ∅
      else processParamDataWithRetry lib strays table (toUrlParam order []) false ∅) =
      helper.paramMap := by
  have hcount : order.length ≤ 2 ^ 32 := by
    have hshort := h.short
    have hdata := length_le_length_appendPairs order [] 0#32
    rw [toUrlParam, appendPairs] at hshort
    rw [List.length_nil] at hdata
    omega
  have hread := getParamv2_entries hcount (PlainEntry.of_traversal h.traversal h.plain)
  rw [bindAll_traversal h.traversal] at hread
  split
  · rename_i hnil
    rw [hnil] at hread
    exact Option.some.inj hread
  · simp [processParamDataWithRetry, h.short.not_ge, processParamData, processParamBody, hread]

/-- The result, where the loop has stopped with the protocol of the address. -/
theorem fromUrl_eq_of_scan (h : PlainUrl helper order) {hostPart : Bytes} {st : HostScan}
    (hscan : scanHost (front helper ++ (hostPart ++ tail helper order)) (front helper).length
      ⟨helper.protocolName, [], [], (front helper).length⟩ = st)
    (hbegin : st.hostBegin = (front helper).length) (hhost : byte '/' ∉ hostPart) :
    fromUrl lib strays table (front helper ++ (hostPart ++ tail helper order)) =
      ⟨helper.paramMap, ∅, st.protocolName, if st.host = [] then hostPart else st.host, st.port,
        helper.path⟩ := by
  rw [← h.scanHost_front] at hscan
  rw [tail] at hscan ⊢
  rw [fromUrl_eq hscan hbegin hhost h.path h.noQuery, h.paramMap_eq]

theorem sameUrl_iff_of_port (h : PlainUrl helper order) (hport : helper.port ≠ []) :
    SameUrl (fromUrl lib strays table (toUrl helper order [])) helper ↔ helper.host ≠ [] := by
  obtain ⟨n, hpos, hle, hdecimal⟩ := h.port.resolve_left hport
  obtain ⟨rest, hrest⟩ := List.head?_eq_some_iff.mp h.path
  have hdigits : ∀ c ∈ helper.port, isDigit c = true := fun c hc =>
    isDigit_of_mem_decimal (hdecimal ▸ hc)
  have hread : Numeral.read 10 digitValue helper.port = n := hdecimal ▸ read_decimal n
  have hatoi : intToString (Scenario.atoi (helper.port ++ tail helper order)) = helper.port := by
    rw [Scenario.atoi_digits hport hdigits (by simp [tail, hrest, isDigit, byte]) (by omega), hread,
      intToString_natCast, hdecimal]
  obtain ⟨d, ds, hcons⟩ := List.exists_cons_of_ne_nil hport
  have hd : isDigit d = true := hdigits d (by rw [hcons]; exact List.mem_cons_self)
  have hprotocol : opensProtocol (helper.port ++ tail helper order) = false := by
    rw [hcons, opensProtocol, decide_eq_false_iff_not]
    rintro ⟨-, hslash, -⟩
    rw [show d = byte '/' from hslash] at hd
    exact absurd hd (by decide)
  have hopens : opensPort (helper.port ++ tail helper order) = true := by
    have hlen := List.length_pos_iff.mpr h.tail_ne_nil
    rw [hcons, opensPort, decide_eq_true_eq]
    refine ⟨?_, hd⟩
    rw [List.cons_append, List.length_cons, List.length_append]
    omega
  have hround := scanHost_colon (front helper) (helper.port ++ tail helper order)
    h.hostColon ⟨helper.protocolName, [], [], (front helper).length⟩
  rw [if_neg (by rw [hprotocol]; exact Bool.false_ne_true), if_pos hopens, List.drop_left,
    hatoi] at hround
  have hsplit : helper.host ++ byte ':' :: (helper.port ++ tail helper order) =
      helper.host ++ portText helper.port ++ tail helper order := by
    simp [portText, hport]
  have hslash : byte '/' ∉ helper.host ++ portText helper.port := by
    rw [portText, if_neg hport, List.mem_append, List.mem_cons, not_or, not_or]
    exact ⟨h.hostSlash, by decide, fun hmem => absurd (hdigits _ hmem) (by decide)⟩
  rw [hsplit] at hround
  rw [h.toUrl_eq, h.fromUrl_eq_of_scan hround rfl hslash]
  by_cases hhost : helper.host = []
  · simp [SameUrl, hhost, portText, hport]
  · simp [SameUrl, hhost]

theorem sameUrl_of_scan (h : PlainUrl helper order) (hport : helper.port = [])
    (hscan : scanHost (front helper ++ (helper.host ++ tail helper order)) (front helper).length
      ⟨helper.protocolName, [], [], (front helper).length⟩ =
        ⟨helper.protocolName, [], [], (front helper).length⟩) :
    SameUrl (fromUrl lib strays table (front helper ++ (helper.host ++ tail helper order)))
      helper := by
  rw [h.fromUrl_eq_of_scan hscan rfl h.hostSlash]
  exact ⟨rfl, rfl, hport.symm, rfl, rfl⟩

section
variable {middle after : Bytes}

theorem slash_mem_middle (h : PlainUrl helper order)
    (htail : tail helper order = middle ++ byte ':' :: after) : byte '/' ∈ middle := by
  obtain ⟨rest, hrest⟩ := List.head?_eq_some_iff.mp h.path
  have hhead : (tail helper order).head? = some (byte '/') := by rw [tail, hrest]; rfl
  rw [htail] at hhead
  cases middle with
  | nil => exact absurd (Option.some.inj hhead) (by decide)
  | cons c cs => exact Option.some.inj hhead ▸ List.mem_cons_self

/-- Without a port the loop goes on to the first ':' behind the host. -/
theorem sameUrl_iff_of_colon (h : PlainUrl helper order) (hport : helper.port = [])
    (htail : tail helper order = middle ++ byte ':' :: after) (hmiddle : byte ':' ∉ middle) :
    SameUrl (fromUrl lib strays table (front helper ++ (helper.host ++ tail helper order))) helper ↔
      opensProtocol after = false ∧ opensPort after = false := by
  have hnone : byte ':' ∉ helper.host ++ middle := by simp [h.hostColon, hmiddle]
  have hround := scanHost_colon (front helper) after hnone
    ⟨helper.protocolName, [], [], (front helper).length⟩
  rw [List.append_assoc, ← htail, List.drop_left] at hround
  by_cases hprotocol : opensProtocol after = true
  · -- the protocol name now reaches into the path
    rw [if_pos hprotocol] at hround
    refine iff_of_false ?_ (by simp [hprotocol])
    intro hsame
    have hgrown := length_protocolName_le
      (front helper ++ (helper.host ++ tail helper order))
      ((front helper).length + (helper.host ++ middle).length + 3)
      ⟨front helper ++ (helper.host ++ middle), [], [],
        (front helper).length + (helper.host ++ middle).length + 3⟩
      (by rw [List.length_append]; omega)
    have hlit : (bytes "://").length = 3 := by decide
    rw [← hround, ← h.scanHost_front, ← protocolName_fromUrl, hsame.1, List.length_append,
      front, List.length_append] at hgrown
    omega
  rw [if_neg hprotocol] at hround
  by_cases hopens : opensPort after = true
  · -- the host now has a '/'
    rw [if_pos hopens] at hround
    refine iff_of_false ?_ (by simp [hopens])
    intro hsame
    have hslash := List.mem_append_right helper.host (h.slash_mem_middle htail)
    have hhost : (fromUrl lib strays table
        (front helper ++ (helper.host ++ tail helper order))).host = _ :=
      host_fromUrl (by rw [h.scanHost_front, hround]; exact List.ne_nil_of_mem hslash)
    rw [hsame.2.1, h.scanHost_front, hround] at hhost
    exact h.hostSlash (hhost ▸ hslash)
  · rw [if_neg hopens] at hround
    exact iff_of_true (h.sameUrl_of_scan hport hround)
      ⟨Bool.eq_false_iff.mpr hprotocol, Bool.eq_false_iff.mpr hopens⟩

end

theorem sameUrl_iff_of_noPort (h : PlainUrl helper order) (hport : helper.port = []) :
    SameUrl (fromUrl lib strays table (toUrl helper order [])) helper ↔
      colonHarmless (tail helper order) = true := by
  rw [h.toUrl_eq, portText, if_pos hport, List.append_nil, colonHarmless]
  by_cases hcolon : byte ':' ∈ tail helper order
  · obtain ⟨middle, after, htail, hmiddle⟩ := List.eq_append_cons_of_mem hcolon
    rw [h.sameUrl_iff_of_colon hport htail hmiddle, htail, dropWhile_ne_append hmiddle]
    simp
  · have hnone : byte ':' ∉ helper.host ++ tail helper order := by simp [h.hostColon, hcolon]
    have hscan := scanHost_end (front helper) hnone
      ⟨helper.protocolName, [], [], (front helper).length⟩
    rw [dropWhile_ne_of_notMem hcolon]
    exact iff_of_true (h.sameUrl_of_scan hport hscan) rfl

end PlainUrl

/-- The structure of an address survives exactly if the loop of the constructor stops where the
host ends, or at a ':' that it takes for nothing. -/
theorem fromUrl_toUrl_iff (lib : Base64Lib) (strays : Nat → Stray) (table : List ParamBindingItem)
    {helper : URLHelper} {order : List (Bytes × Bytes)} (h : PlainUrl helper order) :
    SameUrl (fromUrl lib strays table (toUrl helper order [])) helper ↔
      if helper.port = [] then
        colonHarmless (helper.path ++ queryText (toUrlParam order [])) = true
      else helper.host ≠ [] := by
  split
  · rename_i hport
    exact h.sameUrl_iff_of_noPort hport
  · rename_i hport
    exact h.sameUrl_iff_of_port hport

/-- A parameter that is itself an address. -/
def redirect (port : Bytes) : URLHelper where
  paramMap := Finmap.insert (bytes "u") (bytes "http://x") ∅
  macroParamMap := ∅
  protocolName := bytes "http"
  host := bytes "h"
  port := port
  path := bytes "/c"

def redirectOrder : List (Bytes × Bytes) := [(bytes "u", bytes "http://x")]

theorem redirect_plain (port : Bytes)
    (hport : port = [] ∨ ∃ n, 1 ≤ n ∧ n ≤ 65535 ∧ port = decimal n) :
    PlainUrl (redirect port) redirectOrder := by
  have horder : ParamMap.Traversal (redirect port).paramMap redirectOrder :=
    ParamMap.Traversal.empty.insert List.not_mem_nil _
  refine ⟨(by decide : bytes "http" ≠ []), ?_, (by decide : byte ':' ∉ bytes "h"),
    (by decide : byte '/' ∉ bytes "h"), hport, (by decide : (bytes "/c").head? = some (byte '/')),
    (by decide : byte '?' ∉ bytes "/c"), horder, ?_, by decide⟩
  · exact forall_mem_of_all (by decide : ((bytes "http").all _) = true)
  · intro key value hlookup
    have hmem := (horder.2 key value).mpr hlookup
    rw [redirectOrder, List.mem_singleton] at hmem
    rw [hmem]
    exact ⟨by decide, by decide, by decide, by decide, by decide, by decide, by decide, by decide,
      by decide⟩

theorem fromUrl_toUrl_sample : ∃ port, PlainUrl (redirect port) redirectOrder ∧
    ∀ lib strays table,
      SameUrl (fromUrl lib strays table (toUrl (redirect port) redirectOrder [])) (redirect port) :=
  have hplain := redirect_plain (decimal 80) (.inr ⟨80, by decide, by decide, rfl⟩)
  ⟨decimal 80, hplain, fun lib strays table =>
    (fromUrl_toUrl_iff lib strays table hplain).mpr (by decide)⟩

/-- Without a port the protocol of the parameter is taken for that of the address. -/
theorem redirect_misread : PlainUrl (redirect []) redirectOrder ∧ ∀ lib strays table,
    ¬ SameUrl (fromUrl lib strays table (toUrl (redirect []) redirectOrder [])) (redirect []) :=
  ⟨redirect_plain [] (.inl rfl), fun _ _ _ hsame =>
    absurd (((redirect_plain [] (.inl rfl)).sameUrl_iff_of_noPort rfl).mp hsame) (by decide)⟩

end AdServer.Url
