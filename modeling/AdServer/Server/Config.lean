import AdServer.Library.OrderedMap
import AdServer.Mapping.StoreNodes

/-!
The configuration of the module. Its directives stand in `location` blocks only, which may be
nested. What a block leaves out comes from the block around it, and a block that is not inside
another one has the defaults around it. One directive takes the value of another one from there.
-/
namespace AdServer.Server

open Mapping

inductive StrField
  | kafkabroker | kafkatopic | kafkakey | kafkamqmaxsize
  | bidkafkabroker | bidkafkatopic | bidkafkakey | bidkafkamqmaxsize
  | adselectentry | adselecttimeout | asnode | asnamespace
  | asNamespaceCookiemapping | asNamespaceCrowd | asNamespaceFreq | asNamespaceIdseq
  | asNamespaceOrder | asNamespaceTrace | asNamespaceTrafficcontroll
  | workdir | disabledCookieMapping | dbAccessUrl | dbSchemeName | dbUser | dbPassword
  | sslShowBaseUrl | showBaseUrl | sslClickBaseUrl | clickBaseUrl
  deriving DecidableEq, Repr

inductive NumField
  | logginglevel | kafkaloggerenable | kafkapartionscnt | bidkafkaloggerenable
  | bidkafkapartionscnt | localloggerthreads | asGetTimeoutMs
  deriving DecidableEq, Repr

inductive ConfField
  | str (f : StrField)
  | num (f : NumField)
  deriving DecidableEq, Repr

/-- A text is `none` if its data is null, a number if it is `NGX_CONF_UNSET_UINT`. -/
structure LocationConf where
  str : StrField → Option Bytes
  num : NumField → Option Nat

def commands : List (Bytes × ConfField) :=
  [(bytes "logging_level", .num .logginglevel),
    (bytes "kafka_broker", .str .kafkabroker),
    (bytes "kafka_topic", .str .kafkatopic),
    (bytes "kafka_key", .str .kafkakey),
    (bytes "kafka_mqmaxsize", .str .kafkamqmaxsize),
    (bytes "kafka_logger_enable", .num .kafkaloggerenable),
    (bytes "kafka_partition_cnt", .num .kafkapartionscnt),
    (bytes "bid_kafka_broker", .str .bidkafkabroker),
    (bytes "bid_kafka_topic", .str .bidkafkatopic),
    (bytes "bid_kafka_key", .str .bidkafkakey),
    (bytes "bid_kafka_mqmaxsize", .str .bidkafkamqmaxsize),
    (bytes "bid_kafka_logger_enable", .num .bidkafkaloggerenable),
    (bytes "bid_kafka_partition_cnt", .num .bidkafkapartionscnt),
    (bytes "local_logger_thread", .num .localloggerthreads),
    (bytes "adselect_entry", .str .adselectentry),
    (bytes "adselect_timeout", .str .adselecttimeout),
    (bytes "as_node", .str .asnode),
    (bytes "as_namespace", .str .asnamespace),
    (bytes "as_namespace_cookiemapping", .str .asNamespaceCookiemapping),
    (bytes "as_namespace_crowd", .str .asNamespaceCrowd),
    (bytes "as_namespace_freq", .str .asNamespaceFreq),
    (bytes "as_namespace_idseq", .str .asNamespaceIdseq),
    (bytes "as_namespace_order", .str .asNamespaceOrder),
    (bytes "as_namespace_trace", .str .asNamespaceTrace),
    (bytes "as_namespace_trafficcontroll", .str .asNamespaceTrafficcontroll),
    (bytes "as_get_timeout_ms", .num .asGetTimeoutMs),
    (bytes "workdir", .str .workdir),
    (bytes "disable_cm", .str .disabledCookieMapping),
    (bytes "db_access_url", .str .dbAccessUrl),
    (bytes "db_scheme_name", .str .dbSchemeName),
    (bytes "db_user", .str .dbUser),
    (bytes "db_password", .str .dbPassword),
    (bytes "ssl_show_base_url", .str .sslShowBaseUrl),
    (bytes "show_base_url", .str .showBaseUrl),
    (bytes "ssl_click_base_url", .str .sslClickBaseUrl),
    (bytes "click_base_url", .str .clickBaseUrl)]

def ngxMaxIntTValue : Nat := 9223372036854775807

/-- The loop of `ngx_atoi`; `none` is `NGX_ERROR`. -/
def ngxAtoiFrom (value : Nat) : Bytes → Option Nat
  | [] => some value
  | c :: line =>
    if c < 48 ∨ 57 < c then none
    else if ngxMaxIntTValue / 10 ≤ value ∧
        (ngxMaxIntTValue / 10 < value ∨ ngxMaxIntTValue % 10 < digitValue c) then none
    else ngxAtoiFrom (value * 10 + digitValue c) line

def ngxAtoi (line : Bytes) : Option Nat := if line = [] then none else ngxAtoiFrom 0 line

def createLocationConf : LocationConf where
  str _ := none
  num _ := none

/-- `ngx_conf_set_str_slot`; an error is its text. -/
def parseConfStr (conf : LocationConf) (f : StrField) (value : Bytes) : Except Bytes LocationConf :=
  match conf.str f with
  | some _ => .error (bytes "is duplicate")
  | none => .ok { conf with str := Function.update conf.str f (some value) }

/-- `ngx_conf_set_num_slot`. -/
def parseConfNum (conf : LocationConf) (f : NumField) (value : Bytes) : Except Bytes LocationConf :=
  match conf.num f, ngxAtoi value with
  | some _, _ => .error (bytes "is duplicate")
  | none, none => .error (bytes "invalid number")
  | none, some n => .ok { conf with num := Function.update conf.num f (some n) }

/-- A directive and its argument. -/
structure Directive where
  name : Bytes
  value : Bytes

def Directive.field (directive : Directive) : Option ConfField := commands.lookup directive.name

/-- A directive of another module does not concern this one. -/
def setDirective (conf : LocationConf) (directive : Directive) : Except Bytes LocationConf :=
  match directive.field with
  | some (.str f) => parseConfStr conf f directive.value
  | some (.num f) => parseConfNum conf f directive.value
  | none => .ok conf

/-- The directives of a block, without those of the blocks inside. -/
abbrev Block := List Directive

def parseBlock (block : Block) : Except Bytes LocationConf :=
  block.foldlM setDirective createLocationConf

def StrField.default : StrField → Bytes
  | kafkabroker => bytes ""
  | kafkatopic => bytes "mt-log"
  | kafkakey => bytes ""
  | kafkamqmaxsize => bytes "10000"
  | bidkafkabroker => bytes ""
  | bidkafkatopic => bytes "mt-log"
  | bidkafkakey => bytes ""
  | bidkafkamqmaxsize => bytes "10000"
  | adselectentry => bytes ""
  | adselecttimeout => bytes "0:15|21:-1|98:-1|99:-1"
  | asnode => bytes ""
  | asnamespace => bytes "mtty"
  | asNamespaceCookiemapping => bytes "nonmem"
  | asNamespaceCrowd => bytes "nonmem"
  | asNamespaceFreq => bytes "nondisk"
  | asNamespaceIdseq => bytes "inmem"
  | asNamespaceOrder => bytes "inmem"
  | asNamespaceTrace => bytes "nonmem"
  | asNamespaceTrafficcontroll => bytes "inmem"
  | workdir => bytes "/usr/local/nginx/sbin/"
  | disabledCookieMapping => bytes "no"
  | dbAccessUrl => bytes "tcp://rm-2zek1ct2g06ergoum.mysql.rds.aliyuncs.com:3306"
  | dbSchemeName => bytes "mtdb"
  | dbUser => bytes "mtty_root"
  | dbPassword => bytes "Mtkj*8888"
  | sslShowBaseUrl => bytes "https://show.mtty.com/s"
  | showBaseUrl => bytes "http://show.mtty.com/s"
  | sslClickBaseUrl => bytes "https://click.mtty.com/c"
  | clickBaseUrl => bytes "http://click.mtty.com/c"

def NumField.default : NumField → Nat
  | logginglevel => 3
  | kafkaloggerenable => 1
  | kafkapartionscnt => 18
  | bidkafkaloggerenable => 1
  | bidkafkapartionscnt => 18
  | localloggerthreads => 3
  | asGetTimeoutMs => 10

/-- The field of the block around that a field is merged with. -/
def StrField.inherited : StrField → StrField
  | asNamespaceIdseq => asNamespaceFreq
  | f => f

/-- `ngx_conf_merge_str_value` and `ngx_conf_merge_uint_value`. -/
def mergeValue {α : Type} (conf prev : Option α) (default : α) : Option α :=
  match conf with
  | some value => some value
  | none => some (prev.getD default)

def mergeLocationConf (prev conf : LocationConf) : LocationConf where
  str f := mergeValue (conf.str f) (prev.str f.inherited) f.default
  num f := mergeValue (conf.num f) (prev.num f) f.default

/-- A location block and the blocks around it, from the innermost one on. The `http` and the
`server` block have no directives of this module. -/
def configure : List Block → Except Bytes LocationConf
  | [] => .ok (mergeLocationConf createLocationConf createLocationConf)
  | block :: around => do
    let prev ← configure around
    let conf ← parseBlock block
    .ok (mergeLocationConf prev conf)

structure LogConfig where
  kafkaBroker : Bytes
  kafkaTopic : Bytes
  kafkaKey : Bytes
  kafkaMQMaxSize : Bytes
  partitionCnt : Int
  localLoggerThreads : Int
  kafkaLogEnable : Bool

/-- What has a namespace of its own in the store. -/
inductive StoreUse
  | cookiemapping | crowd | trace | reqcounter | freq | order | idseq | trafficcontroll
  deriving DecidableEq, Repr

def StoreUse.defaultNamespace : StoreUse → Bytes
  | cookiemapping | crowd | trace | reqcounter => bytes "nonmem"
  | freq => bytes "nondisk"
  | order | idseq | trafficcontroll => bytes "inmem"

/-- The configuration that the tasks read, with its values before `global_init`. -/
structure GlobalConfig where
  loggingLevel : Int := 0
  log : Option LogConfig := none
  bidLog : Option LogConfig := none
  adselectNode : Bytes := []
  adselectTimeout : OrderedMap Int Int := .empty
  disabledCookieMapping : Bool := false
  nameSpace : Bytes := []
  funcNamespace : StoreUse → Bytes := StoreUse.defaultNamespace
  getTimeoutMS : Int := 10
  connections : List ASConnection := []
  accessUrl : Bytes := bytes "tcp://rm-2zek1ct2g06ergoum.mysql.rds.aliyuncs.com:3306"
  dbName : Bytes := bytes "mtdb"
  userName : Bytes := bytes "mtty_root"
  password : Bytes := bytes "Mtkj*8888"
  sslShowUrl : Bytes := bytes "https://show.mtty.com/s"
  nonSSLShowUrl : Bytes := bytes "http://show.mtty.com/s"
  sslClickUrl : Bytes := bytes "https://click.mtty.com/c"
  nonSSLClickUrl : Bytes := bytes "http://click.mtty.com/c"

/-- The loop over the parts; `none` is an exception, or a read behind the last part. -/
def parseTimeouts (timeoutMap : OrderedMap Int Int) : List Bytes → Option (OrderedMap Int Int)
  | [] => some timeoutMap
  | [_] => none
  | adx :: timeout :: results => do
    let adx ← stoi adx
    let timeout ← stoi timeout
    parseTimeouts (timeoutMap.insert adx timeout) results

def parseConfigAdselectTimeout (timeoutStr : Bytes) (timeoutMap : OrderedMap Int Int) :
    Option (OrderedMap Int Int) :=
  parseTimeouts timeoutMap (timeoutStr.splitOnP fun c => c = byte '|' ∨ c = byte ':')

def LocationConf.text (conf : LocationConf) (f : StrField) : Bytes := (conf.str f).getD []

def LocationConf.int (conf : LocationConf) (f : NumField) : Int := toInt32 ((conf.num f).getD 0)

/-- What `global_init` makes of the configuration of a location. -/
def GlobalConfig.take (config : GlobalConfig) (conf : LocationConf) : Option GlobalConfig := do
  let timeouts ← parseConfigAdselectTimeout (conf.text .adselecttimeout) config.adselectTimeout
  let connections ← parseConfigAeroSpikeNode (conf.text .asnode) config.connections
  some {
    loggingLevel := conf.int .logginglevel
    log := some {
      kafkaBroker := conf.text .kafkabroker
      kafkaTopic := conf.text .kafkatopic
      kafkaKey := conf.text .kafkakey
      kafkaMQMaxSize := conf.text .kafkamqmaxsize
      partitionCnt := conf.int .kafkapartionscnt
      localLoggerThreads := conf.int .localloggerthreads
      kafkaLogEnable := conf.num .kafkaloggerenable = some 1 }
    bidLog := some {
      kafkaBroker := conf.text .bidkafkabroker
      kafkaTopic := conf.text .bidkafkatopic
      kafkaKey := conf.text .bidkafkakey
      kafkaMQMaxSize := conf.text .bidkafkamqmaxsize
      partitionCnt := conf.int .bidkafkapartionscnt
      localLoggerThreads := conf.int .localloggerthreads
      kafkaLogEnable := conf.num .bidkafkaloggerenable = some 1 }
    adselectNode := conf.text .adselectentry
    adselectTimeout := timeouts
    disabledCookieMapping := conf.text .disabledCookieMapping = bytes "yes"
    nameSpace := conf.text .asnamespace
    funcNamespace := fun use =>
      match use with
      | .cookiemapping => conf.text .asNamespaceCookiemapping
      | .crowd => conf.text .asNamespaceCrowd
      | .freq => conf.text .asNamespaceFreq
      | .idseq => conf.text .asNamespaceIdseq
      | .order => conf.text .asNamespaceOrder
      | .trace => conf.text .asNamespaceTrace
      | .trafficcontroll => conf.text .asNamespaceTrafficcontroll
      | .reqcounter => config.funcNamespace .reqcounter
    getTimeoutMS := (conf.num .asGetTimeoutMs).getD 0
    connections := connections
    accessUrl := conf.text .dbAccessUrl
    dbName := conf.text .dbSchemeName
    userName := conf.text .dbUser
    password := conf.text .dbPassword
    sslShowUrl := conf.text .sslShowBaseUrl
    nonSSLShowUrl := conf.text .showBaseUrl
    sslClickUrl := conf.text .sslClickBaseUrl
    nonSSLClickUrl := conf.text .clickBaseUrl }

section Blocks

/-- What a directive says about a text. -/
def Directive.text (f : StrField) (directive : Directive) : Option Bytes :=
  if directive.field = some (.str f) then some directive.value else none

def Directive.number (f : NumField) (directive : Directive) : Option Nat :=
  if directive.field = some (.num f) then ngxAtoi directive.value else none

def Block.text (f : StrField) (block : Block) : Option Bytes := block.findSome? (Directive.text f)

def Block.number (f : NumField) (block : Block) : Option Nat :=
  block.findSome? (Directive.number f)

variable {conf conf' : LocationConf} {directive : Directive} {block : Block}

theorem setDirective_spec (h : setDirective conf directive = .ok conf') :
    (∀ f, conf'.str f = (conf.str f).or (directive.text f)) ∧
      ∀ f, conf'.num f = (conf.num f).or (directive.number f) := by
  rw [setDirective] at h
  simp only [Directive.text, Directive.number]
  cases hfield : directive.field with
  | none =>
      rw [hfield] at h
      cases h
      simp
  | some field =>
      rw [hfield] at h
      cases field with
      | str g =>
          dsimp only at h
          rw [parseConfStr] at h
          split at h
          · cases h
          · rename_i hunset
            cases h
            refine ⟨fun f => ?_, fun f => by simp⟩
            by_cases hf : f = g
            · subst hf
              simp [hunset]
            · simp [Function.update_of_ne hf, Ne.symm hf]
      | num g =>
          dsimp only at h
          rw [parseConfNum] at h
          split at h
          · cases h
          · cases h
          · rename_i n hunset hvalue
            cases h
            refine ⟨fun f => by simp, fun f => ?_⟩
            by_cases hf : f = g
            · subst hf
              simp [hunset, hvalue]
            · simp [Function.update_of_ne hf, Ne.symm hf]

theorem foldlM_setDirective (h : block.foldlM setDirective conf = .ok conf') :
    (∀ f, conf'.str f = (conf.str f).or (block.text f)) ∧
      ∀ f, conf'.num f = (conf.num f).or (block.number f) := by
  induction block generalizing conf with
  | nil =>
      cases h
      exact ⟨fun f => Option.or_none.symm, fun f => Option.or_none.symm⟩
  | cons directive block ih =>
      rw [List.foldlM_cons] at h
      cases hset : setDirective conf directive with
      | error message =>
          rw [hset] at h
          cases h
      | ok next =>
          rw [hset] at h
          obtain ⟨htext, hnumber⟩ := setDirective_spec hset
          obtain ⟨htexts, hnumbers⟩ := ih h
          refine ⟨fun f => ?_, fun f => ?_⟩
          · rw [htexts, htext, Option.or_assoc, Block.text, Block.text, List.findSome?_cons]
            cases directive.text f <;> rfl
          · rw [hnumbers, hnumber, Option.or_assoc, Block.number, Block.number,
              List.findSome?_cons]
            cases directive.number f <;> rfl

/-- A block that is accepted has the values of its directives. -/
theorem parseBlock_spec (h : parseBlock block = .ok conf) :
    (∀ f, conf.str f = block.text f) ∧ ∀ f, conf.num f = block.number f := by
  obtain ⟨htext, hnumber⟩ := foldlM_setDirective h
  exact ⟨fun f => (htext f).trans Option.none_or, fun f => (hnumber f).trans Option.none_or⟩

end Blocks

section Inheritance

variable {blocks : List Block} {conf : LocationConf}

theorem configure_cons {block : Block} {around : List Block}
    (h : configure (block :: around) = .ok conf) :
    ∃ prev own, configure around = .ok prev ∧ parseBlock block = .ok own ∧
      conf = mergeLocationConf prev own := by
  rw [configure] at h
  cases hprev : configure around with
  | error message =>
      rw [hprev] at h
      cases h
  | ok prev =>
      rw [hprev] at h
      cases hown : parseBlock block with
      | error message =>
          rw [hown] at h
          cases h
      | ok own =>
          rw [hown] at h
          cases h
          exact ⟨prev, own, rfl, rfl, rfl⟩

theorem mergeValue_eq {α : Type} (conf prev : Option α) (default : α) :
    mergeValue conf prev default = some ((conf.or prev).getD default) := by
  cases conf <;> rfl

theorem str_mergeLocationConf (prev conf : LocationConf) (f : StrField) :
    (mergeLocationConf prev conf).str f =
      some (((conf.str f).or (prev.str f.inherited)).getD f.default) := mergeValue_eq ..

theorem num_mergeLocationConf (prev conf : LocationConf) (f : NumField) :
    (mergeLocationConf prev conf).num f = some (((conf.num f).or (prev.num f)).getD f.default) :=
  mergeValue_eq ..

theorem configure_str {f : StrField} (hf : f.inherited = f) (h : configure blocks = .ok conf) :
    conf.str f = some ((blocks.findSome? (Block.text f)).getD f.default) := by
  induction blocks generalizing conf with
  | nil =>
      cases h
      rfl
  | cons block around ih =>
      obtain ⟨prev, own, hprev, hown, rfl⟩ := configure_cons h
      rw [str_mergeLocationConf, hf, ih hprev, (parseBlock_spec hown).1,
        List.findSome?_cons]
      cases block.text f <;> rfl

theorem configure_num (f : NumField) (h : configure blocks = .ok conf) :
    conf.num f = some ((blocks.findSome? (Block.number f)).getD f.default) := by
  induction blocks generalizing conf with
  | nil =>
      cases h
      rfl
  | cons block around ih =>
      obtain ⟨prev, own, hprev, hown, rfl⟩ := configure_cons h
      rw [num_mergeLocationConf, ih hprev, (parseBlock_spec hown).2,
        List.findSome?_cons]
      cases block.number f <;> rfl

theorem inherited_eq_self {f : StrField} (hf : f ≠ .asNamespaceIdseq) : f.inherited = f := by
  cases f <;> first | rfl | exact absurd rfl hf

/-- In a location every value is that of the innermost block with a directive for it, or else the
default. The namespace of the id sequences alone is never inherited: a block without it takes the
namespace of the frequencies from around, so that its own default is in force nowhere. -/
theorem configure_inherits (block : Block) (around : List Block) (conf : LocationConf)
    (h : configure (block :: around) = .ok conf) :
    (∀ f, f ≠ .asNamespaceIdseq →
      conf.str f = some (((block :: around).findSome? (Block.text f)).getD f.default)) ∧
    (∀ f, conf.num f = some (((block :: around).findSome? (Block.number f)).getD f.default)) ∧
    conf.str .asNamespaceIdseq = some ((block.text .asNamespaceIdseq).getD
      ((around.findSome? (Block.text .asNamespaceFreq)).getD (bytes "nondisk"))) := by
  refine ⟨fun f hf => configure_str (inherited_eq_self hf) h, fun f => configure_num f h, ?_⟩
  obtain ⟨prev, own, hprev, hown, rfl⟩ := configure_cons h
  have hfreq : prev.str .asNamespaceFreq = _ := configure_str rfl hprev
  rw [str_mergeLocationConf, StrField.inherited, hfreq, (parseBlock_spec hown).1]
  cases block.text .asNamespaceIdseq <;> rfl

/-- A block without directives inside one that sets the namespace. -/
theorem configure_inherits_nested :
    ∃ conf, configure [[], [⟨bytes "as_namespace_idseq", bytes "seq"⟩]] = .ok conf ∧
      conf.str .asNamespaceIdseq = some (bytes "nondisk") :=
  ⟨_, rfl, (configure_inherits [] [[⟨bytes "as_namespace_idseq", bytes "seq"⟩]] _ rfl).2.2⟩

end Inheritance

end AdServer.Server
