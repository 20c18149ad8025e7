import AdServer.Library.Cursor
import AdServer.Url.Query

/-!
The nodes of the store in the configuration, each `host` or `host:port` with commas between them.
`parseConfigAeroSpikeNode` goes from comma to comma, so that a last node without a comma is not
seen, and it looks for the colon of a node in all of the text that is left. A position is the text
from it on.
-/
namespace AdServer.Mapping

open Cursor Url

structure ASConnection where
  host : Bytes
  port : Int
  deriving DecidableEq, Repr

/-- The loop; `none` is an exception of `std::stoi`. -/
def parseLoop (rest : Bytes) (connections : List ASConnection) : Option (List ASConnection) :=
  match _h : cut (· = byte ',') rest with
  | none => some connections
  | some (item, _, next) =>
    match cut (· = byte ':') rest with
    | some (host, _, port) =>
      (stoi (cString port)).bind fun port => parseLoop next (connections ++ [⟨host, port⟩])
    | none => parseLoop next (connections ++ [⟨item, 3000⟩])
termination_by rest.length
decreasing_by
  · exact length_of_cut _h
  · exact length_of_cut _h

def parseConfigAeroSpikeNode (asNode : Bytes) (connections : List ASConnection) :
    Option (List ASConnection) :=
  parseLoop asNode connections

/-- A port as it is written. -/
structure PortText where
  digits : Bytes
  isDigit : ∀ c ∈ digits, isDigit c = true
  ne_nil : digits ≠ []
  pos : 0 < Numeral.read 10 digitValue digits
  le : Numeral.read 10 digitValue digits ≤ 65535

def PortText.value (port : PortText) : Nat := Numeral.read 10 digitValue port.digits

structure StoreNode where
  host : Bytes
  port : Option PortText
  host_ne_nil : host ≠ []
  comma_notMem : byte ',' ∉ host
  colon_notMem : byte ':' ∉ host

namespace StoreNode

def text (node : StoreNode) : Bytes :=
  match node.port with
  | some port => node.host ++ byte ':' :: port.digits
  | none => node.host

/-- The connection that the node asks for. -/
def connection (node : StoreNode) : ASConnection :=
  match node.port with
  | some port => ⟨node.host, port.value⟩
  | none => ⟨node.host, 3000⟩

end StoreNode

def configText (trailing : Bool) : List StoreNode → Bytes
  | [] => []
  | [node] => node.text ++ if trailing then [byte ','] else []
  | node :: next :: nodes => node.text ++ byte ',' :: configText trailing (next :: nodes)

theorem decide_eq_false_of_notMem {c : UInt8} {p : Bytes} (h : c ∉ p) :
    ∀ x ∈ p, decide (x = c) = false := fun _ hx =>
  decide_eq_false fun heq => h (heq ▸ hx)

section
variable {rest item : Bytes} {connections : List ASConnection}

theorem parseLoop_none (h : byte ',' ∉ rest) : parseLoop rest connections = some connections := by
  have hcut : cut (fun c => decide (c = byte ',')) rest = none :=
    cut_eq_none (decide_eq_false_of_notMem h)
  rw [parseLoop]
  split
  · rfl
  · rename_i hsome
    cases hcut.symm.trans hsome

/-- One round, up to the next comma. -/
theorem parseLoop_comma (hitem : byte ',' ∉ item) (next : Bytes) :
    parseLoop (item ++ byte ',' :: next) connections =
      match cut (· = byte ':') (item ++ byte ',' :: next) with
      | some (host, _, port) =>
        (stoi (cString port)).bind fun port => parseLoop next (connections ++ [⟨host, port⟩])
      | none => parseLoop next (connections ++ [⟨item, 3000⟩]) := by
  have hcut : cut (fun c => decide (c = byte ',')) (item ++ byte ',' :: next) =
      some (item, byte ',', next) :=
    cut_append_cons (decide_eq_false_of_notMem hitem) (decide_eq_true rfl) next
  rw [parseLoop]
  split
  · rename_i hnone
    cases hcut.symm.trans hnone
  · rename_i hsome
    cases hcut.symm.trans hsome
    rfl

end

/-- A connection is added for each comma. -/
theorem length_of_parseLoop {rest : Bytes} {connections result : List ASConnection}
    (h : parseLoop rest connections = some result) :
    result.length = connections.length + rest.count (byte ',') := by
  obtain ⟨n, hn⟩ : ∃ n, rest.length = n := ⟨_, rfl⟩
  induction n using Nat.strongRecOn generalizing rest connections with
  | ind n ih =>
      by_cases hcomma : byte ',' ∈ rest
      · obtain ⟨item, next, rfl, hitem⟩ := List.eq_append_cons_of_mem hcomma
        have hcount : (item ++ byte ',' :: next).count (byte ',') = next.count (byte ',') + 1 := by
          rw [List.count_append, List.count_eq_zero_of_not_mem hitem, List.count_cons_self,
            Nat.zero_add]
        have hround {connection : ASConnection}
            (hnext : parseLoop next (connections ++ [connection]) = some result) :
            result.length = connections.length + (item ++ byte ',' :: next).count (byte ',') := by
          rw [List.length_append, List.length_cons] at hn
          rw [ih next.length (by omega) hnext rfl, List.length_append, List.length_singleton,
            hcount]
          omega
        rw [parseLoop_comma hitem] at h
        split at h
        · obtain ⟨port, -, hnext⟩ := Option.bind_eq_some_iff.mp h
          exact hround hnext
        · exact hround h
      · rw [parseLoop_none hcomma] at h
        cases h
        rw [List.count_eq_zero_of_not_mem hcomma, Nat.add_zero]

theorem PortText.notMem (port : PortText) {c : UInt8} (hc : AdServer.isDigit c = false) :
    c ∉ port.digits := fun hmem =>
  Bool.false_ne_true (hc.symm.trans (port.isDigit c hmem))

/-- The number ends at the comma. -/
theorem PortText.stoi_comma (port : PortText) (more : Bytes) :
    stoi (cString (port.digits ++ byte ',' :: more)) = some (port.value : Int) := by
  have htake : (port.digits ++ byte ',' :: cString more).takeWhile AdServer.isDigit =
      port.digits := by
    rw [List.takeWhile_append_of_pos port.isDigit, List.takeWhile_cons_of_neg (by decide),
      List.append_nil]
  have hcString : cString (port.digits ++ byte ',' :: more) =
      port.digits ++ byte ',' :: cString more := by
    rw [cString_append, if_neg (port.notMem (by decide))]
    rfl
  have hle := port.le
  have hpos := port.pos
  obtain ⟨c, cs, hcs⟩ := List.exists_cons_of_ne_nil port.ne_nil
  have hsplit := splitSign_of_isDigit (port.isDigit c (hcs ▸ List.mem_cons_self))
    (cs ++ byte ',' :: cString more)
  rw [← List.cons_append, ← hcs] at hsplit
  rw [hcString, stoi, stol, hsplit]
  simp only [htake, port.ne_nil, if_false, Bool.false_eq_true]
  rw [checkLong, if_pos (by omega), Option.filter_some, if_pos (by simp; omega)]
  rfl

namespace StoreNode

theorem comma_notMem_text (node : StoreNode) : byte ',' ∉ node.text := by
  unfold text
  split
  · rename_i port hport
    simp only [List.mem_append, List.mem_cons, not_or]
    exact ⟨node.comma_notMem, by decide, port.notMem (by decide)⟩
  · exact node.comma_notMem

theorem text_of_port {node : StoreNode} {port : PortText} (h : node.port = some port) :
    node.text = node.host ++ byte ':' :: port.digits := by rw [text, h]

theorem text_of_none {node : StoreNode} (h : node.port = none) : node.text = node.host := by
  rw [text, h]

end StoreNode

theorem configText_true_cons (node : StoreNode) (nodes : List StoreNode) :
    configText true (node :: nodes) = node.text ++ byte ',' :: configText true nodes := by
  cases nodes with
  | nil => rfl
  | cons next nodes => rfl

/-- A comma stands between two nodes, and one more behind the last if it is a trailing one. -/
theorem count_configText (trailing : Bool) (node : StoreNode) (nodes : List StoreNode) :
    (configText trailing (node :: nodes)).count (byte ',') =
      nodes.length + if trailing then 1 else 0 := by
  induction nodes generalizing node with
  | nil =>
      rw [configText, List.count_append, List.count_eq_zero_of_not_mem node.comma_notMem_text]
      cases trailing with
      | false => rfl
      | true => rfl
  | cons next nodes ih =>
      rw [configText, List.count_append, List.count_eq_zero_of_not_mem node.comma_notMem_text,
        List.count_cons_self, ih, List.length_cons]
      omega

/-- The first colon is the one of the first node with a port. -/
theorem colon_cases (nodes : List StoreNode) :
    (∀ node ∈ nodes, node.port = none) ∧ byte ':' ∉ configText true nodes ∨
    (∃ node ∈ nodes, node.port ≠ none) ∧ ∃ front port more, byte ':' ∉ front ∧
      configText true nodes = front ++ byte ':' :: (PortText.digits port ++ byte ',' :: more) := by
  induction nodes with
  | nil => exact .inl ⟨List.forall_mem_nil _, List.not_mem_nil⟩
  | cons node nodes ih =>
      rw [configText_true_cons]
      cases hport : node.port with
      | some port =>
          refine .inr ⟨⟨node, List.mem_cons_self, ?_⟩, node.host, port, configText true nodes,
            node.colon_notMem, ?_⟩
          · rw [hport]
            exact Option.some_ne_none port
          · rw [StoreNode.text_of_port hport, List.append_assoc, List.cons_append]
      | none =>
          rw [StoreNode.text_of_none hport]
          obtain ⟨hnone, hcolon⟩ | ⟨⟨m, hm, hmport⟩, front, port, more, hfront, hmore⟩ := ih
          · refine .inl ⟨List.forall_mem_cons.mpr ⟨hport, hnone⟩, ?_⟩
            simp only [List.mem_append, List.mem_cons, not_or]
            exact ⟨node.colon_notMem, by decide, hcolon⟩
          · refine .inr ⟨⟨m, List.mem_cons_of_mem _ hm, hmport⟩,
              node.host ++ byte ',' :: front, port, more, ?_, ?_⟩
            · simp only [List.mem_append, List.mem_cons, not_or]
              exact ⟨node.colon_notMem, by decide, hfront⟩
            · rw [hmore, List.append_assoc, List.cons_append]

theorem cut_colon {front : Bytes} (h : byte ':' ∉ front) (more : Bytes) :
    cut (fun c => decide (c = byte ':')) (front ++ byte ':' :: more) =
      some (front, byte ':', more) :=
  cut_append_cons (decide_eq_false_of_notMem h) (decide_eq_true rfl) more

/-- A round for a node: it is taken as it is unless it has no port and a later one has. -/
theorem parseLoop_node (node : StoreNode) (nodes : List StoreNode)
    (connections : List ASConnection) :
    ∃ found, parseLoop (configText true (node :: nodes)) connections =
        parseLoop (configText true nodes) (connections ++ [found]) ∧
      (found = node.connection ↔ (node.port = none → ∀ m ∈ nodes, m.port = none)) := by
  rw [configText_true_cons, parseLoop_comma node.comma_notMem_text]
  cases hport : node.port with
  | some port =>
      refine ⟨⟨node.host, port.value⟩, ?_, ?_⟩
      · rw [StoreNode.text_of_port hport, List.append_assoc, List.cons_append,
          cut_colon node.colon_notMem]
        change (stoi _).bind _ = _
        rw [port.stoi_comma, Option.bind_some]
      · rw [StoreNode.connection, hport]
        exact ⟨fun _ h => absurd h (Option.some_ne_none port), fun _ => rfl⟩
  | none =>
      rw [StoreNode.text_of_none hport, StoreNode.connection, hport]
      obtain ⟨hnone, hcolon⟩ | ⟨⟨m, hm, hmport⟩, front, port, more, hfront, hmore⟩ :=
        colon_cases nodes
      · refine ⟨⟨node.host, 3000⟩, ?_, ⟨fun _ _ => hnone, fun _ => rfl⟩⟩
        have hnode : byte ':' ∉ node.host ++ byte ',' :: configText true nodes := by
          simp only [List.mem_append, List.mem_cons, not_or]
          exact ⟨node.colon_notMem, by decide, hcolon⟩
        rw [cut_eq_none (decide_eq_false_of_notMem hnode)]
      · refine ⟨⟨node.host ++ byte ',' :: front, port.value⟩, ?_, ?_⟩
        · rw [hmore, ← List.cons_append, ← List.append_assoc, cut_colon]
          · change (stoi _).bind _ = _
            rw [port.stoi_comma, Option.bind_some]
          · simp only [List.mem_append, List.mem_cons, not_or]
            exact ⟨node.colon_notMem, by decide, hfront⟩
        · refine ⟨fun heq => ?_, fun h => absurd (h rfl m hm) hmport⟩
          have hhost : node.host ++ byte ',' :: front = node.host := congrArg ASConnection.host heq
          have hcomma : byte ',' ∈ node.host ++ byte ',' :: front :=
            List.mem_append_right _ List.mem_cons_self
          exact absurd (hhost ▸ hcomma) node.comma_notMem

theorem parseLoop_nodes (nodes : List StoreNode) (connections : List ASConnection) :
    ∃ found, parseLoop (configText true nodes) connections = some (connections ++ found) ∧
      (found = nodes.map StoreNode.connection ↔
        nodes.Pairwise fun a b => a.port = none → b.port = none) := by
  induction nodes generalizing connections with
  | nil =>
      refine ⟨[], ?_, iff_of_true rfl .nil⟩
      rw [configText, parseLoop_none List.not_mem_nil, List.append_nil]
  | cons node nodes ih =>
      obtain ⟨first, hround, hfirst⟩ := parseLoop_node node nodes connections
      obtain ⟨found, hrun, hfound⟩ := ih (connections ++ [first])
      refine ⟨first :: found, ?_, ?_⟩
      · rw [hround, hrun, List.append_assoc, List.singleton_append]
      · rw [List.map_cons, List.cons.injEq, hfirst, hfound, List.pairwise_cons]
        exact and_congr_left' ⟨fun h m hm hnone => h hnone m hm, fun h hnone m hm => h m hm hnone⟩

/-- Every node is used exactly if a comma stands behind the last one and no node with a port comes
after one without. -/
theorem parseConfigAeroSpikeNode_iff (trailing : Bool) (node : StoreNode) (nodes : List StoreNode)
    (connections : List ASConnection) :
    parseConfigAeroSpikeNode (configText trailing (node :: nodes)) connections =
        some (connections ++ (node :: nodes).map StoreNode.connection) ↔
      trailing = true ∧ (node :: nodes).Pairwise fun a b => a.port = none → b.port = none := by
  cases trailing with
  | false =>
      refine ⟨fun h => ?_, fun h => absurd h.1 Bool.false_ne_true⟩
      have hlength := length_of_parseLoop h
      rw [count_configText, List.length_append, List.length_map, List.length_cons] at hlength
      simp at hlength
  | true =>
      obtain ⟨found, hrun, hfound⟩ := parseLoop_nodes (node :: nodes) connections
      rw [parseConfigAeroSpikeNode, hrun, Option.some_inj, List.append_cancel_left_eq, hfound,
        and_iff_right rfl]

/-- The last node is not seen, and a node without a port takes the text up to a later colon. -/
theorem parseConfigAeroSpikeNode_lost :
    parseConfigAeroSpikeNode (bytes "a") [] = some [] ∧
    parseConfigAeroSpikeNode (bytes "a,b:5,") [] =
      some [⟨bytes "a,b", 5⟩, ⟨bytes "b", 5⟩] := by
  refine ⟨parseLoop_none (by decide), ?_⟩
  have hfirst := @parseLoop_comma (bytes "a") [] (by decide) (bytes "b:5,")
  have hsecond := @parseLoop_comma (bytes "b:5") [⟨bytes "a,b", 5⟩] (by decide) []
  have hend := @parseLoop_none [] [⟨bytes "a,b", 5⟩, ⟨bytes "b", 5⟩] (by decide)
  exact hfirst.trans (hsecond.trans hend)

end AdServer.Mapping
