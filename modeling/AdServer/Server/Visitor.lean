import AdServer.Library.Lockstep
import AdServer.Server.Http
import AdServer.Url.Reference

/-!
How a visitor is recognized. A page or a click comes with the cookies of the browser and with the
user of its URL; `userCookieLogic` takes the user of the URL, else the one of the cookie, else a new
one, and plants a cookie where the browser should have another. The browser sends its cookies as
`a=1; b=2`, and a cookie without a name as its value alone.

`extractCookiesParam` reads the cookies as it reads a query, so that the value of a cookie without
a name goes to the name in front of it.
-/
namespace AdServer.Server

open Url LastWrite

/-- A cookie without a name has an empty one. -/
structure Cookie where
  name : Bytes
  value : Bytes
  deriving DecidableEq, Repr

def Cookie.text (c : Cookie) : Bytes :=
  if c.name = [] then c.value else c.name ++ byte '=' :: c.value

def jarText : List Cookie → Bytes
  | [] => []
  | c :: cookies => c.text ++ cookies.flatMap fun c => bytes "; " ++ c.text

/-- The headers of a request; there is none if there are no cookies. -/
def cookieHeaders (jar : List Cookie) : List Bytes := if jar = [] then [] else [jarText jar]

/-- A cookie takes the place of the one of its name. -/
def storeCookie (jar : List Cookie) (cookie : Cookie) : List Cookie :=
  if jar.any fun c => c.name = cookie.name then
    jar.map fun c => if c.name = cookie.name then cookie else c
  else jar ++ [cookie]

/-- What a browser takes from `Set-Cookie`: the pair in front of the attributes. -/
def parseSetCookie (text : Bytes) : Cookie :=
  let pair := text.takeWhile (· ≠ byte ';')
  ⟨pair.takeWhile (· ≠ byte '='), (pair.dropWhile (· ≠ byte '=')).drop 1⟩

/-- `none` is an exception of the string class; `m[key]` of a missing key is empty. -/
def extractCookiesParam (key input : Bytes) : Option Bytes :=
  (getParamv2 ∅ input (byte ';')).map fun m => (m.lookup key).getD []

/-- `MT::User::UserID`: the id in an encrypted text if it is valid, the encrypted text of an id, and
the ids that are made from the sequence. -/
structure UserIDLib where
  decode : Bytes → Option Bytes
  cipher : Bytes → Bytes
  generate : Nat → Bytes

structure CookieNames where
  mttyId : Bytes
  mttyDomain : Bytes

def setCookieKey : Bytes := bytes "Set-Cookie"

section
variable (lib : UserIDLib) (names : CookieNames)

def plantNewCookie (cookieUid : Bytes) (response : HttpResponse) : HttpResponse :=
  response.set (setCookieKey,
    names.mttyId ++ bytes "=" ++ cookieUid ++ bytes ";Domain=." ++ names.mttyDomain ++
      bytes ";Max-Age=2617488000;")

/-- The user that is logged. `fresh` is the place in the sequence of a new one. -/
def userCookieLogic (userCookies serverEncUid : Bytes) (fresh : Nat) (response : HttpResponse) :
    Option (Bytes × HttpResponse) := do
  let cookieEncUid ← extractCookiesParam names.mttyId userCookies
  match lib.decode cookieEncUid, lib.decode serverEncUid with
  | some _, some user =>
    if cookieEncUid ≠ serverEncUid then
      some (user, plantNewCookie names (lib.cipher user) response)
    else some (user, response)
  | none, some user => some (user, plantNewCookie names (lib.cipher user) response)
  | some user, none => some (user, response)
  | none, none =>
    some (lib.generate fresh, plantNewCookie names (lib.cipher (lib.generate fresh)) response)

/-- A request of the visitor; its cookies are those of the browser. -/
structure PageVisit where
  request : NgxRequest
  serverEncUid : Bytes
  fresh : Nat

/-- One visit: the browser sends its cookies, the user is logged, and the browser stores the cookie
of the reply. -/
def visitPage (jar : List Cookie) (v : PageVisit) : Option (List Cookie × Bytes) := do
  let request := readHeader { v.request with cookies := cookieHeaders jar }
  let (user, response) ← userCookieLogic lib names (request.get cookieKey) v.serverEncUid v.fresh {}
  let jar :=
    match response.headers setCookieKey with
    | none => jar
    | some text => storeCookie jar (parseSetCookie text)
  some (jar, user)

end

/-! ### Reading the cookies -/

structure Cookie.WellFormed (c : Cookie) : Prop where
  nameSpace : c.name.head? ≠ some (byte ' ')
  nameEquals : byte '=' ∉ c.name
  nameEnd : byte ';' ∉ c.name
  nameNul : (0 : UInt8) ∉ c.name
  valueSpace : c.value.head? ≠ some (byte ' ')
  valueEnd : byte ';' ∉ c.value
  valueNul : (0 : UInt8) ∉ c.value
  namelessEquals : c.name = [] → byte '=' ∉ c.value

/-- The pairs that the server reads: a value without a name goes to the name before. -/
def assigned : Bytes → List Cookie → List (Bytes × Bytes)
  | _, [] => []
  | key, c :: cookies =>
    let key' := if c.name = [] then key else c.name
    (key', c.value) :: assigned key' cookies

/-- The value that the server reads under a name. -/
def readBack (key : Bytes) (jar : List Cookie) : Bytes :=
  ((last? (fun entry => entry.1 = key) (assigned [] jar)).map Prod.snd).getD []

theorem dropSpaces_of_head {text : Bytes} (h : text.head? ≠ some (byte ' ')) :
    dropSpaces text = text := by
  cases text with
  | nil => rfl
  | cons c text =>
      have hc : c ≠ byte ' ' := fun heq => h (by rw [heq]; rfl)
      exact List.dropWhile_cons_of_neg (by simpa using hc)

theorem keyedFrom_of_notMem {text : Bytes} (h : byte '=' ∉ text) (pending : Bytes) :
    keyedFrom pending text = (none, pending ++ text) := by
  induction text generalizing pending with
  | nil => rw [keyedFrom, List.append_nil]
  | cons c text ih =>
      obtain ⟨hc, htext⟩ := not_or.mp (mt List.mem_cons.mpr h)
      rw [keyedFrom, if_neg (Ne.symm hc), ih htext, List.append_assoc, List.singleton_append]

/-- A cookie with the space that may stand in front of it. -/
theorem keyed_cookie {c : Cookie} (h : c.WellFormed) {space : Bytes}
    (hspace : space = [] ∨ space = [byte ' ']) :
    (∀ key, (keyed (space ++ c.text)).1.getD key = if c.name = [] then key else c.name) ∧
      dropSpaces (keyed (space ++ c.text)).2 = c.value := by
  have hdrop : ∀ text : Bytes, text.head? ≠ some (byte ' ') →
      dropSpaces (space ++ text) = text := by
    intro text htext
    rcases hspace with rfl | rfl
    · exact dropSpaces_of_head htext
    · exact dropSpaces_of_head htext
  have hequals : byte '=' ∉ space := by
    rcases hspace with rfl | rfl <;> decide
  by_cases hname : c.name = []
  · have hnot : byte '=' ∉ space ++ c.value :=
      fun hmem => (List.mem_append.mp hmem).elim hequals (h.namelessEquals hname)
    rw [Cookie.text, if_pos hname, keyed, keyedFrom_of_notMem hnot, List.nil_append]
    exact ⟨fun key => (if_pos hname).symm, hdrop c.value h.valueSpace⟩
  · have hnot : byte '=' ∉ space ++ c.name :=
      fun hmem => (List.mem_append.mp hmem).elim hequals h.nameEquals
    rw [Cookie.text, if_neg hname, keyed, ← List.append_assoc, keyedFrom_append hnot,
      List.nil_append, hdrop c.name h.nameSpace, if_pos hname]
    exact ⟨fun key => (if_neg hname).symm, dropSpaces_of_head h.valueSpace⟩

theorem notMem_text {c : Cookie} (h : c.WellFormed) : byte ';' ∉ c.text ∧ (0 : UInt8) ∉ c.text := by
  unfold Cookie.text
  split
  · exact ⟨h.valueEnd, h.valueNul⟩
  · have hend := h.nameEnd
    have hend' := h.valueEnd
    have hnul := h.nameNul
    have hnul' := h.valueNul
    refine ⟨?_, ?_⟩
    · rw [List.mem_append, List.mem_cons]
      exact not_or.mpr ⟨hend, not_or.mpr ⟨by decide, hend'⟩⟩
    · rw [List.mem_append, List.mem_cons]
      exact not_or.mpr ⟨hnul, not_or.mpr ⟨by decide, hnul'⟩⟩

/-- The rest of the text from the end of a cookie on. -/
def textBehind (cookies : List Cookie) : Bytes :=
  cookies.flatMap (fun c => bytes "; " ++ c.text) ++ bytes ";"

theorem run_cookies {c : Cookie} {cookies : List Cookie} (h : ∀ c' ∈ c :: cookies, c'.WellFormed)
    {space : Bytes} (hspace : space = [] ∨ space = [byte ' ']) (key : Bytes) (m : ParamMap) :
    (Scan.run (byte ';') ⟨[], false, key, m⟩ (space ++ c.text ++ textBehind cookies)).map
        Scan.finish =
      some ((assigned key (c :: cookies)).foldl (fun m entry => Finmap.insert entry.1 entry.2 m)
        m) := by
  have hc := h c List.mem_cons_self
  obtain ⟨hkey, hvalue⟩ := keyed_cookie hc hspace
  have hsep : byte ';' ∉ space ++ c.text := by
    intro hmem
    refine (List.mem_append.mp hmem).elim ?_ (notMem_text hc).1
    rcases hspace with rfl | rfl <;> decide
  induction cookies generalizing c space key m with
  | nil =>
      have hbehind : textBehind [] = byte ';' :: [] := rfl
      rw [hbehind, run_segment_seperator (by decide) hsep, if_neg (fun hcross => by
        exact absurd hcross.1 (by decide)), hkey, hvalue]
      rfl
  | cons next cookies ih =>
      have hnext := h next (List.mem_cons_of_mem _ List.mem_cons_self)
      have hbehind : textBehind (next :: cookies) =
          byte ';' :: ([byte ' '] ++ next.text ++ textBehind cookies) := by
        rw [textBehind, List.flatMap_cons, List.append_assoc]
        rfl
      obtain ⟨hkey', hvalue'⟩ := keyed_cookie hnext (.inr rfl)
      rw [hbehind, run_segment_seperator (by decide) hsep, if_neg (fun hcross => by
        exact absurd hcross.1 (by decide)), hkey, hvalue]
      refine ih (fun c' hc' => h c' (List.mem_cons_of_mem _ hc')) (.inr rfl) _ _ hnext hkey'
        hvalue' ?_
      intro hmem
      refine (List.mem_append.mp hmem).elim ?_ (notMem_text hnext).1
      decide

theorem extractCookiesParam_cookies {jar : List Cookie} (h : ∀ c ∈ jar, c.WellFormed)
    (key : Bytes) :
    extractCookiesParam key (cookiesText (cookieHeaders jar)) = some (readBack key jar) := by
  cases jar with
  | nil => rfl
  | cons c cookies =>
      have htext : cookiesText (cookieHeaders (c :: cookies)) =
          [] ++ c.text ++ textBehind cookies := by
        simp [cookieHeaders, cookiesText, jarText, textBehind]
      have hnul : (0 : UInt8) ∉ [] ++ c.text ++ textBehind cookies := by
        simp only [textBehind, List.nil_append, List.mem_append, List.mem_flatMap, not_or,
          not_exists, not_and]
        refine ⟨(notMem_text (h c List.mem_cons_self)).2, ?_, by decide⟩
        intro c' hc'
        exact ⟨by decide, (notMem_text (h c' (List.mem_cons_of_mem _ hc'))).2⟩
      rw [extractCookiesParam, htext, getParamv2_eq_scan, cString_of_notMem hnul,
        run_cookies h (.inl rfl), Option.map_some]
      exact congrArg (fun found => some (Option.getD found [])) (lookup_bindAll _ key)

/-- Under `name` the jar has `value`, and right behind it some cookies without a name. -/
def Placed (name : Bytes) (jar : List Cookie) (value : Bytes) (strays : List Cookie) : Prop :=
  ∃ before after, jar = before ++ ⟨name, value⟩ :: (strays ++ after) ∧
    (∀ c ∈ before ++ after, c.name ≠ name) ∧ (∀ c ∈ strays, c.name = []) ∧
    ∀ c ∈ after.head?, c.name ≠ []

section
variable {name : Bytes}

theorem key_of_mem_assigned {key : Bytes} {cookies : List Cookie} {entry : Bytes × Bytes}
    (h : entry ∈ assigned key cookies) : entry.1 = key ∨ ∃ c ∈ cookies, c.name = entry.1 := by
  induction cookies generalizing key with
  | nil => cases h
  | cons c cookies ih =>
      rw [assigned, List.mem_cons] at h
      by_cases hname : c.name = []
      · rw [if_pos hname] at h
        rcases h with rfl | h
        · exact .inl rfl
        · exact (ih h).imp_right fun ⟨c', hc', heq⟩ => ⟨c', List.mem_cons_of_mem _ hc', heq⟩
      · rw [if_neg hname] at h
        rcases h with rfl | h
        · exact .inr ⟨c, List.mem_cons_self, rfl⟩
        · rcases ih h with heq | ⟨c', hc', heq⟩
          · exact .inr ⟨c, List.mem_cons_self, heq.symm⟩
          · exact .inr ⟨c', List.mem_cons_of_mem _ hc', heq⟩

theorem assigned_append (key : Bytes) (earlier later : List Cookie) :
    ∃ key', assigned key (earlier ++ later) = assigned key earlier ++ assigned key' later := by
  induction earlier generalizing key with
  | nil => exact ⟨key, rfl⟩
  | cons c earlier ih =>
      obtain ⟨key', hkey'⟩ := ih (if c.name = [] then key else c.name)
      exact ⟨key', by rw [List.cons_append, assigned, hkey', assigned, List.cons_append]⟩

/-- Cookies without a name all go to the name before them. -/
theorem assigned_strays (key : Bytes) {strays : List Cookie} (h : ∀ c ∈ strays, c.name = [])
    (after : List Cookie) :
    assigned key (strays ++ after) =
      strays.map (fun c => (key, c.value)) ++ assigned key after := by
  induction strays with
  | nil => rfl
  | cons c strays ih =>
      rw [List.cons_append, assigned, if_pos (h c List.mem_cons_self),
        ih fun c' hc' => h c' (List.mem_cons_of_mem _ hc')]
      rfl

theorem assigned_named (key key' : Bytes) {cookies : List Cookie}
    (h : ∀ c ∈ cookies.head?, c.name ≠ []) : assigned key cookies = assigned key' cookies := by
  cases cookies with
  | nil => rfl
  | cons c cookies => rw [assigned, assigned, if_neg (h c rfl), if_neg (h c rfl)]

theorem last?_assigned_none (hname : name ≠ []) {cookies : List Cookie}
    (h : ∀ c ∈ cookies, c.name ≠ name) :
    last? (fun entry => entry.1 = name) (assigned [] cookies) = none := by
  rw [last?, List.find?_eq_none]
  intro entry hentry hkey
  rw [decide_eq_true_eq] at hkey
  rcases key_of_mem_assigned (List.mem_reverse.mp hentry) with hnil | ⟨c, hc, heq⟩
  · exact hname (hkey.symm.trans hnil)
  · exact h c hc (heq.trans hkey)

theorem readBack_absent (hname : name ≠ []) {jar : List Cookie} (h : ∀ c ∈ jar, c.name ≠ name) :
    readBack name jar = [] := by
  rw [readBack, last?_assigned_none hname h]
  rfl

/-- The last cookie without a name hides the value. -/
theorem readBack_placed (hname : name ≠ []) {jar strays : List Cookie} {value : Bytes}
    (h : Placed name jar value strays) :
    readBack name jar = (strays.getLast?.map Cookie.value).getD value := by
  obtain ⟨before, after, rfl, hother, hstrays, hafter⟩ := h
  have hlater : last? (fun entry => entry.1 = name) (assigned name after) = none := by
    rw [assigned_named name [] hafter]
    exact last?_assigned_none hname fun c hc => hother c (List.mem_append_right _ hc)
  obtain ⟨key', hkey'⟩ := assigned_append [] before (⟨name, value⟩ :: (strays ++ after))
  rw [readBack, hkey', last?_append, assigned, if_neg hname, assigned_strays name hstrays,
    last?_cons, last?_append, hlater, Option.none_or]
  have hall : last? (fun entry => entry.1 = name) (strays.map fun c => (name, c.value)) =
      (strays.getLast?).map fun c => (name, c.value) := by
    rw [last?_map, last?]
    cases hlast : strays.getLast? with
    | none =>
        rw [List.getLast?_eq_none_iff.mp hlast]
        rfl
    | some c =>
        obtain ⟨front, rfl⟩ := List.getLast?_eq_some_iff.mp hlast
        rw [List.reverse_append]
        simp
  rw [hall]
  cases strays.getLast? <;> simp

theorem storeCookie_absent {jar : List Cookie} (h : ∀ c ∈ jar, c.name ≠ name) (value : Bytes) :
    storeCookie jar ⟨name, value⟩ = jar ++ [⟨name, value⟩] := by
  rw [storeCookie, if_neg]
  simpa using h

theorem placed_storeCookie_absent {jar : List Cookie} (h : ∀ c ∈ jar, c.name ≠ name)
    (value : Bytes) : Placed name (storeCookie jar ⟨name, value⟩) value [] := by
  rw [storeCookie_absent h]
  exact ⟨jar, [], rfl, by simpa using h, by simp, by simp⟩

theorem placed_storeCookie {jar strays : List Cookie} {value : Bytes} (hname : name ≠ [])
    (h : Placed name jar value strays) (value' : Bytes) :
    Placed name (storeCookie jar ⟨name, value'⟩) value' strays := by
  obtain ⟨before, after, rfl, hother, hstrays, hafter⟩ := h
  have hkeep : ∀ cookies : List Cookie, (∀ c ∈ cookies, c.name ≠ name) →
      cookies.map (fun c => if c.name = name then ⟨name, value'⟩ else c) = cookies := by
    intro cookies hcookies
    exact (List.map_congr_left fun c hc => if_neg (hcookies c hc)).trans (List.map_id _)
  have hnamed : ∀ c ∈ strays, c.name ≠ name := fun c hc heq => hname (heq ▸ hstrays c hc)
  refine ⟨before, after, ?_, hother, hstrays, hafter⟩
  rw [storeCookie, if_pos (by simp)]
  simp only [List.map_append, List.map_cons, if_true]
  rw [hkeep before fun c hc => hother c (List.mem_append_left _ hc),
    hkeep after fun c hc => hother c (List.mem_append_right _ hc), hkeep strays hnamed]

theorem wellFormed_storeCookie {jar : List Cookie} {cookie : Cookie}
    (h : ∀ c ∈ jar, c.WellFormed) (hcookie : cookie.WellFormed) :
    ∀ c ∈ storeCookie jar cookie, c.WellFormed := by
  unfold storeCookie
  split
  · intro c hc
    obtain ⟨c', hc', rfl⟩ := List.mem_map.mp hc
    split
    · exact hcookie
    · exact h c' hc'
  · intro c hc
    rcases List.mem_append.mp hc with hc | hc
    · exact h c hc
    · exact List.mem_singleton.mp hc ▸ hcookie

end

/-! ### The visits of a browser -/

structure CookieNames.Lawful (names : CookieNames) : Prop where
  nonempty : names.mttyId ≠ []
  noSpace : names.mttyId.head? ≠ some (byte ' ')
  noEquals : byte '=' ∉ names.mttyId
  noEnd : byte ';' ∉ names.mttyId
  noNul : (0 : UInt8) ∉ names.mttyId

/-- An id that is valid or made by the sequence is found again in its encrypted text, and such a
text can be the value of a cookie. -/
structure UserIDLib.Lawful (lib : UserIDLib) : Prop where
  empty : lib.decode [] = none
  decoded : ∀ text user, lib.decode text = some user → lib.decode (lib.cipher user) = some user
  generated : ∀ n, lib.decode (lib.cipher (lib.generate n)) = some (lib.generate n)
  noSpace : ∀ user, (lib.cipher user).head? ≠ some (byte ' ')
  noEnd : ∀ user, byte ';' ∉ lib.cipher user
  noNul : ∀ user, (0 : UInt8) ∉ lib.cipher user

section
variable {lib : UserIDLib} {names : CookieNames}

theorem wellFormed_planted (lawful : lib.Lawful) (hnames : names.Lawful) (user : Bytes) :
    Cookie.WellFormed ⟨names.mttyId, lib.cipher user⟩ where
  nameSpace := hnames.noSpace
  nameEquals := hnames.noEquals
  nameEnd := hnames.noEnd
  nameNul := hnames.noNul
  valueSpace := lawful.noSpace user
  valueEnd := lawful.noEnd user
  valueNul := lawful.noNul user
  namelessEquals := fun hname => absurd hname hnames.nonempty

theorem takeWhile_ne_append {c : UInt8} {text : Bytes} (h : c ∉ text) (rest : Bytes) :
    (text ++ c :: rest).takeWhile (· ≠ c) = text := by
  rw [List.takeWhile_append_of_pos fun d hd => by simpa using fun heq : d = c => h (heq ▸ hd),
    List.takeWhile_cons_of_neg (by simp), List.append_nil]

theorem parseSetCookie_pair {name value : Bytes} (hequals : byte '=' ∉ name)
    (hname : byte ';' ∉ name) (hvalue : byte ';' ∉ value) (rest : Bytes) :
    parseSetCookie (name ++ byte '=' :: (value ++ byte ';' :: rest)) = ⟨name, value⟩ := by
  have hpair : byte ';' ∉ name ++ byte '=' :: value := by
    rw [List.mem_append, List.mem_cons]
    exact not_or.mpr ⟨hname, not_or.mpr ⟨by decide, hvalue⟩⟩
  have htext : name ++ byte '=' :: (value ++ byte ';' :: rest) =
      (name ++ byte '=' :: value) ++ byte ';' :: rest := by
    rw [List.append_assoc, List.cons_append]
  simp only [parseSetCookie, htext, takeWhile_ne_append hpair, takeWhile_ne_append hequals,
    dropWhile_ne_append hequals, List.drop_succ_cons, List.drop_zero]

/-- The browser stores the cookie that is planted. -/
theorem parseSetCookie_planted (lawful : lib.Lawful) (hnames : names.Lawful) (user : Bytes)
    (response : HttpResponse) :
    ((plantNewCookie names (lib.cipher user) response).headers setCookieKey).map parseSetCookie =
      some ⟨names.mttyId, lib.cipher user⟩ := by
  have htext : names.mttyId ++ bytes "=" ++ lib.cipher user ++ bytes ";Domain=." ++
        names.mttyDomain ++ bytes ";Max-Age=2617488000;" =
      names.mttyId ++ byte '=' :: (lib.cipher user ++ byte ';' ::
        (bytes "Domain=." ++ names.mttyDomain ++ bytes ";Max-Age=2617488000;")) := by
    have hequals : bytes "=" = [byte '='] := rfl
    have hdomain : bytes ";Domain=." = byte ';' :: bytes "Domain=." := rfl
    rw [hequals, hdomain]
    simp only [List.append_assoc, List.cons_append, List.nil_append]
  rw [plantNewCookie, htext, HttpResponse.set]
  simp only [write, Function.update_self, Option.map_some,
    parseSetCookie_pair hnames.noEquals hnames.noEnd (lawful.noEnd user)]

theorem get_cookie_readHeader (r : NgxRequest) :
    (readHeader r).get cookieKey = cookiesText r.cookies := by
  simp only [readHeader, HttpRequest.get, HttpRequest.set, write, Function.update_self,
    Option.getD_some]

/-- What the server finds in the cookies decides the visit. -/
def outcome (lib : UserIDLib) (found : Bytes) (v : PageVisit) : Bytes × Bool :=
  match lib.decode found, lib.decode v.serverEncUid with
  | some _, some user => (user, found ≠ v.serverEncUid)
  | none, some user => (user, true)
  | some user, none => (user, false)
  | none, none => (lib.generate v.fresh, true)

theorem userCookieLogic_eq {userCookies found : Bytes} (v : PageVisit)
    (hfound : extractCookiesParam names.mttyId userCookies = some found) :
    userCookieLogic lib names userCookies v.serverEncUid v.fresh {} =
      some ((outcome lib found v).1,
        if (outcome lib found v).2 then plantNewCookie names (lib.cipher (outcome lib found v).1) {}
        else {}) := by
  rw [userCookieLogic, hfound, Option.bind_eq_bind, Option.bind_some, outcome]
  cases lib.decode found <;> cases lib.decode v.serverEncUid with
  | none => simp
  | some user => by_cases heq : found = v.serverEncUid <;> simp [heq]

def jarAfter (lib : UserIDLib) (name : Bytes) (jar : List Cookie) (v : PageVisit) : List Cookie :=
  if (outcome lib (readBack name jar) v).2 then
    storeCookie jar ⟨name, lib.cipher (outcome lib (readBack name jar) v).1⟩
  else jar

theorem visitPage_eq (lawful : lib.Lawful) (hnames : names.Lawful) {jar : List Cookie}
    (hjar : ∀ c ∈ jar, c.WellFormed) (v : PageVisit) :
    visitPage lib names jar v =
      some (jarAfter lib names.mttyId jar v, (outcome lib (readBack names.mttyId jar) v).1) := by
  rw [visitPage, get_cookie_readHeader,
    userCookieLogic_eq v (extractCookiesParam_cookies hjar names.mttyId), jarAfter]
  obtain ⟨user, planted⟩ := outcome lib (readBack names.mttyId jar) v
  cases planted with
  | false => rfl
  | true =>
      obtain ⟨text, htext, hparse⟩ :=
        Option.map_eq_some_iff.mp (parseSetCookie_planted lawful hnames user {})
      simp only [if_true, Option.bind_eq_bind, Option.bind_some, htext, hparse]

theorem outcome_user (found : Bytes) (v : PageVisit) :
    (outcome lib found v).1 =
      (lib.decode v.serverEncUid).getD ((lib.decode found).getD (lib.generate v.fresh)) := by
  unfold outcome
  cases lib.decode found <;> cases lib.decode v.serverEncUid <;> rfl

theorem outcome_kept {found : Bytes} {v : PageVisit} (h : (outcome lib found v).2 = false) :
    lib.decode found = some (outcome lib found v).1 := by
  unfold outcome at h ⊢
  cases hfound : lib.decode found <;> cases hserver : lib.decode v.serverEncUid with
  | none => simp_all
  | some user =>
      simp only [hfound, hserver] at h ⊢
      first
        | cases h
        | rw [decide_eq_false_iff_not, not_not] at h
          rw [← hfound, h, hserver]

theorem outcome_valid (lawful : lib.Lawful) (found : Bytes) (v : PageVisit) :
    lib.decode (lib.cipher (outcome lib found v).1) = some (outcome lib found v).1 := by
  rw [outcome_user]
  cases hserver : lib.decode v.serverEncUid with
  | some user => exact lawful.decoded _ _ hserver
  | none =>
      cases hfound : lib.decode found with
      | some user => exact lawful.decoded _ _ hfound
      | none => exact lawful.generated v.fresh

/-- Whom the visitor is taken for, and who they are from then on. -/
def identify (lib : UserIDLib) (current : Option Bytes) (v : PageVisit) : Option Bytes × Bytes :=
  let user := (lib.decode v.serverEncUid).getD (current.getD (lib.generate v.fresh))
  (some user, user)

/-- The jar lets the server know the visitor as `current`. -/
def Known (lib : UserIDLib) (name : Bytes) (jar : List Cookie) (current : Option Bytes) : Prop :=
  (∀ c ∈ jar, c.WellFormed) ∧
    ((∀ c ∈ jar, c.name ≠ name) ∧ current = none ∨
      ∃ value, Placed name jar value [] ∧ lib.decode value = current)

theorem Known.readBack (lawful : lib.Lawful) {name : Bytes} (hname : name ≠ [])
    {jar : List Cookie} {current : Option Bytes} (h : Known lib name jar current) :
    lib.decode (readBack name jar) = current := by
  rcases h.2 with ⟨habsent, rfl⟩ | ⟨value, hplaced, hvalue⟩
  · rw [readBack_absent hname habsent, lawful.empty]
  · rw [readBack_placed hname hplaced]
    exact hvalue

theorem Known.store (lawful : lib.Lawful) (hnames : names.Lawful) {jar : List Cookie}
    {current : Option Bytes} (h : Known lib names.mttyId jar current) {user : Bytes}
    (huser : lib.decode (lib.cipher user) = some user) :
    Known lib names.mttyId (storeCookie jar ⟨names.mttyId, lib.cipher user⟩) (some user) := by
  refine ⟨wellFormed_storeCookie h.1 (wellFormed_planted lawful hnames user), .inr ⟨_, ?_, huser⟩⟩
  rcases h.2 with ⟨habsent, -⟩ | ⟨value, hplaced, -⟩
  · exact placed_storeCookie_absent habsent _
  · exact placed_storeCookie hnames.nonempty hplaced _

theorem visitPage_known (lawful : lib.Lawful) (hnames : names.Lawful) :
    Lockstep.Simulates (visitPage lib names) (identify lib) (Known lib names.mttyId) := by
  intro jar current v hknown
  have hread := hknown.readBack lawful hnames.nonempty
  have huser : (identify lib current v).2 = (outcome lib (readBack names.mttyId jar) v).1 := by
    rw [outcome_user, hread]
    rfl
  rw [huser]
  refine ⟨_, visitPage_eq lawful hnames hknown.1 v, ?_⟩
  show Known lib names.mttyId _ (some (identify lib current v).2)
  rw [huser, jarAfter]
  cases hplanted : (outcome lib (readBack names.mttyId jar) v).2 with
  | true => exact hknown.store lawful hnames (outcome_valid lawful _ v)
  | false =>
      rw [← outcome_kept hplanted, hread]
      exact hknown

/-- A visitor keeps the identity of the last URL that had one, else that of the cookie they came
with, else the one they got on their first visit. -/
theorem visitor_identities (lawful : lib.Lawful) (hnames : names.Lawful) {jar : List Cookie}
    {current : Option Bytes} (hknown : Known lib names.mttyId jar current)
    (visits : List PageVisit) :
    ∃ last, Lockstep.run (visitPage lib names) jar visits =
        some (last, (Lockstep.specRun (identify lib) current visits).2) ∧
      Known lib names.mttyId last (Lockstep.specRun (identify lib) current visits).1 :=
  (visitPage_known lawful hnames).run hknown visits

/-- Ids are their own encrypted texts behind a letter. -/
def sampleIds : UserIDLib where
  decode
    | c :: user => if c = byte 'u' ∧ byte ';' ∉ user ∧ 0 ∉ user then some user else none
    | [] => none
  cipher user := byte 'u' :: user.filter fun c => c ≠ byte ';' ∧ c ≠ 0
  generate n := List.replicate n (byte 'a')

theorem decode_cipher_sampleIds {user : Bytes} (hend : byte ';' ∉ user) (hnul : 0 ∉ user) :
    sampleIds.decode (sampleIds.cipher user) = some user := by
  have hfilter : (user.filter fun c => c ≠ byte ';' ∧ c ≠ 0) = user := by
    rw [List.filter_eq_self]
    intro c hc
    simpa using ⟨fun heq => hend (heq ▸ hc), fun heq => hnul (heq ▸ hc)⟩
  have hcipher : sampleIds.cipher user = byte 'u' :: user := congrArg (byte 'u' :: ·) hfilter
  rw [hcipher]
  exact if_pos ⟨rfl, hend, hnul⟩

theorem lawful_sampleIds : sampleIds.Lawful where
  empty := rfl
  decoded := by
    intro text user hdecode
    cases text with
    | nil => cases hdecode
    | cons c text =>
        simp only [sampleIds] at hdecode
        split at hdecode
        · rename_i hvalid
          cases hdecode
          exact decode_cipher_sampleIds hvalid.2.1 hvalid.2.2
        · cases hdecode
  generated n := by
    refine decode_cipher_sampleIds ?_ ?_
    · exact fun hmem => absurd (List.eq_of_mem_replicate hmem) (by decide)
    · exact fun hmem => absurd (List.eq_of_mem_replicate hmem) (by decide)
  noSpace user := by
    intro hspace
    exact absurd (Option.some.inj hspace) (by decide)
  noEnd user := by
    intro hmem
    rcases List.mem_cons.mp hmem with hmem | hmem
    · exact absurd hmem (by decide)
    · simpa using (List.mem_filter.mp hmem).2
  noNul user := by
    intro hmem
    rcases List.mem_cons.mp hmem with hmem | hmem
    · exact absurd hmem (by decide)
    · simpa using (List.mem_filter.mp hmem).2

def sampleNames : CookieNames := ⟨bytes "id", bytes "mtty.com"⟩

theorem lawful_sampleNames : sampleNames.Lawful := by
  constructor <;> decide

def samplePage (fresh : Nat) : PageVisit :=
  ⟨⟨2, bytes "GET", bytes "/v", [], ⟨[], []⟩, [], none⟩, [], fresh⟩

theorem visitor_identities_twice :
    ∃ last, Lockstep.run (visitPage sampleIds sampleNames) [] [samplePage 1, samplePage 2] =
      some (last, [bytes "a", bytes "a"]) := by
  have hknown : Known sampleIds sampleNames.mttyId [] none :=
    ⟨fun c hc => (nomatch hc), .inl ⟨fun c hc => (nomatch hc), rfl⟩⟩
  obtain ⟨last, hrun, -⟩ :=
    visitor_identities lawful_sampleIds lawful_sampleNames hknown [samplePage 1, samplePage 2]
  exact ⟨last, hrun⟩

/-- A cookie without a name right behind that of the visitor hides it. -/
def Hidden (lib : UserIDLib) (name : Bytes) (jar : List Cookie) : Prop :=
  (∀ c ∈ jar, c.WellFormed) ∧ ∃ value strays stray, Placed name jar value (strays ++ [stray]) ∧
    lib.decode stray.value = none

def forget (lib : UserIDLib) (_ : Unit) (v : PageVisit) : Unit × Bytes :=
  ((), (lib.decode v.serverEncUid).getD (lib.generate v.fresh))

theorem visitPage_hidden (lawful : lib.Lawful) (hnames : names.Lawful) :
    Lockstep.Simulates (visitPage lib names) (forget lib)
      (fun jar _ => Hidden lib names.mttyId jar) := by
  rintro jar ⟨⟩ v ⟨hjar, value, strays, stray, hplaced, hstray⟩
  have hread : readBack names.mttyId jar = stray.value := by
    rw [readBack_placed hnames.nonempty hplaced, List.getLast?_append]
    rfl
  have huser : (forget lib () v).2 = (outcome lib (readBack names.mttyId jar) v).1 := by
    rw [outcome_user, hread, hstray]
    rfl
  rw [huser]
  refine ⟨_, visitPage_eq lawful hnames hjar v, ?_⟩
  rw [jarAfter]
  cases hplanted : (outcome lib (readBack names.mttyId jar) v).2 with
  | true =>
      exact ⟨wellFormed_storeCookie hjar (wellFormed_planted lawful hnames _), _, strays, stray,
        placed_storeCookie hnames.nonempty hplaced _, hstray⟩
  | false => exact ⟨hjar, value, strays, stray, hplaced, hstray⟩

/-- A visitor whose cookie is hidden gets a new identity on every visit that brings none in its
URL, whatever the server plants. -/
theorem hidden_visitor_identities (lawful : lib.Lawful) (hnames : names.Lawful)
    {jar : List Cookie} (hhidden : Hidden lib names.mttyId jar) (visits : List PageVisit) :
    ∃ last, Lockstep.run (visitPage lib names) jar visits =
      some (last, visits.map fun v => (lib.decode v.serverEncUid).getD (lib.generate v.fresh)) := by
  obtain ⟨last, hrun, -⟩ := (visitPage_hidden lawful hnames).run (t := ()) hhidden visits
  refine ⟨last, hrun.trans ?_⟩
  have hspec : (Lockstep.specRun (forget lib) () visits).2 =
      visits.map fun v => (lib.decode v.serverEncUid).getD (lib.generate v.fresh) := by
    clear hrun
    induction visits with
    | nil => rfl
    | cons v visits ih =>
        rw [Lockstep.specRun, List.map_cons]
        exact congrArg (_ :: ·) ih
  rw [hspec]

theorem hidden_visitor_identities_twice :
    ∃ last, Lockstep.run (visitPage sampleIds sampleNames)
        [⟨bytes "id", bytes "ub"⟩, ⟨[], bytes "x"⟩] [samplePage 1, samplePage 2] =
      some (last, [bytes "a", bytes "aa"]) := by
  have hhidden : Hidden sampleIds sampleNames.mttyId
      [⟨bytes "id", bytes "ub"⟩, ⟨[], bytes "x"⟩] := by
    refine ⟨?_, bytes "ub", [], ⟨[], bytes "x"⟩, ⟨[], [], rfl, ?_, ?_, ?_⟩, rfl⟩
    · intro c hc
      rcases List.mem_cons.mp hc with rfl | hc
      · constructor <;> decide
      · rw [List.mem_singleton.mp hc]
        constructor <;> decide
    · exact fun c hc => (nomatch hc)
    · simp
    · exact fun c hc => (nomatch hc)
  exact hidden_visitor_identities lawful_sampleIds lawful_sampleNames hhidden
    [samplePage 1, samplePage 2]

end

end AdServer.Server
