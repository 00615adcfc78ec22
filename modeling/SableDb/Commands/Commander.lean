import SableDb.Commands.Resp

/-!
# `CommandsManager`: the command registry and its RESP self-description

The registry maps each lowercased command name to its `CommandMetadata`: the name tag the
handlers route on, a `u64` word of flags, the arity and the key positions.  The builder methods
set one field or one flag each.

`to_resp_v2` describes one entry for the `COMMAND` reply: an array of ten items.  `cmmand_output`
and `cmmand_docs_output` describe the whole table.  The table is a `HashMap`, so we iterate it
in the order of a list of its entries, and every result holds for every such order.  A client
reads each of these buffers as exactly the array the spec lays out (`command_reply_read`).
-/

namespace SableDb

/-- `RedisCommandFlags`. -/
inductive RedisCommandFlags
  | none
  | read
  | write
  | admin
  | connection
  | blocking
  deriving DecidableEq, Repr

/-- `flag as u64`: the discriminant of each flag. -/
def RedisCommandFlags.asU64 : RedisCommandFlags → UInt64
  | .none => 0
  | .read => (1 : UInt64) <<< 0
  | .write => (1 : UInt64) <<< 1
  | .admin => (1 : UInt64) <<< 2
  | .connection => (1 : UInt64) <<< 3
  | .blocking => (1 : UInt64) <<< 4

/-- `RedisCommandName`. -/
inductive RedisCommandName
  | append | decr | decrBy | incrBy | incrByFloat | incr | set | get | mget | mset | msetnx
  | getDel | getSet | getEx | getRange | lcs | ping | config | psetex | setex | setnx | setRange
  | strlen | substr
  -- List commands
  | lpush | lpushx | rpush | rpushx | lpop | rpop | llen | lindex | linsert | lset | lpos | ltrim
  | lrange | lrem | lmove | rpoplpush | brpoplpush | blpop | brpop | lmpop | blmpop | blmove
  -- Client commands
  | client | select
  -- Server commands
  | replicaOf | slaveOf | info | command
  -- Generic commands
  | ttl | del | «exists» | expire
  -- Hash commands
  | hset | hget | hdel | hlen | hexists | hgetall | hincrby | hincrbyfloat | hkeys | hvals | hmget
  | hmset | hrandfield
  | notSupported (message : String)

/-- `char::escape_debug` as `{:?}` of a `String` applies it, on ASCII: `\0`, `\t`, `\r`, `\n`,
`\\` and `\"`, `\u` with the lowercase hex code for the other control characters, and every other
ASCII character as itself.  A character beyond ASCII is kept as it is: the escapes of the
non-printable ones are left out. -/
def escapeDebug (c : Char) : String :=
  match c.toNat with
  | 0 => "\\0"
  | 9 => "\\t"
  | 10 => "\\n"
  | 13 => "\\r"
  | 34 => "\\\""
  | 92 => "\\\\"
  | n =>
    if n < 32 ∨ n = 127 then "\\u\x7b" ++ String.mk (Nat.toDigits 16 n) ++ "\x7d" else c.toString

/-- `format!("{:?}", s)` of a `String`: the text in double quotes, each character escaped. -/
def debugStr (s : String) : String := "\"" ++ String.join (s.data.map escapeDebug) ++ "\""

/-- `format!("{:?}", name)`: the derived `Debug` text of a name. -/
def RedisCommandName.debugString : RedisCommandName → String
  | .append => "Append" | .decr => "Decr" | .decrBy => "DecrBy" | .incrBy => "IncrBy"
  | .incrByFloat => "IncrByFloat" | .incr => "Incr" | .set => "Set" | .get => "Get"
  | .mget => "Mget" | .mset => "Mset" | .msetnx => "Msetnx" | .getDel => "GetDel"
  | .getSet => "GetSet" | .getEx => "GetEx" | .getRange => "GetRange" | .lcs => "Lcs"
  | .ping => "Ping" | .config => "Config" | .psetex => "Psetex" | .setex => "Setex"
  | .setnx => "Setnx" | .setRange => "SetRange" | .strlen => "Strlen" | .substr => "Substr"
  | .lpush => "Lpush" | .lpushx => "Lpushx" | .rpush => "Rpush" | .rpushx => "Rpushx"
  | .lpop => "Lpop" | .rpop => "Rpop" | .llen => "Llen" | .lindex => "Lindex"
  | .linsert => "Linsert" | .lset => "Lset" | .lpos => "Lpos" | .ltrim => "Ltrim"
  | .lrange => "Lrange" | .lrem => "Lrem" | .lmove => "Lmove" | .rpoplpush => "Rpoplpush"
  | .brpoplpush => "Brpoplpush" | .blpop => "Blpop" | .brpop => "Brpop" | .lmpop => "Lmpop"
  | .blmpop => "Blmpop" | .blmove => "Blmove" | .client => "Client" | .select => "Select"
  | .replicaOf => "ReplicaOf" | .slaveOf => "SlaveOf" | .info => "Info" | .command => "Command"
  | .ttl => "Ttl" | .del => "Del" | .«exists» => "Exists" | .expire => "Expire"
  | .hset => "Hset" | .hget => "Hget" | .hdel => "Hdel" | .hlen => "Hlen"
  | .hexists => "Hexists" | .hgetall => "Hgetall" | .hincrby => "Hincrby"
  | .hincrbyfloat => "Hincrbyfloat" | .hkeys => "Hkeys" | .hvals => "Hvals" | .hmget => "Hmget"
  | .hmset => "Hmset" | .hrandfield => "Hrandfield"
  | .notSupported message => "NotSupported(" ++ debugStr message ++ ")"

/- A quote, a backslash and an escape character in an unknown command's name, as `{:?}` prints
them. -/
example : (RedisCommandName.notSupported "a\"b\\c\x1b").debugString =
    "NotSupported(\"a\\\"b\\\\c\\u\x7b1b\x7d\")" := by decide

/-- `CommandMetadata`.  `arity`, `first_key` and `last_key` are `i16`s, kept as 16-bit words and
read as two's complement. -/
structure CommandMetadata where
  cmdName : RedisCommandName
  cmdFlags : UInt64
  arity : BitVec 16
  firstKey : BitVec 16
  lastKey : BitVec 16
  step : UInt16

namespace CommandMetadata

/-- `CommandMetadata::new`: no flags, arity 2, and one key at position 1. -/
def new (cmdName : RedisCommandName) : CommandMetadata where
  cmdName := cmdName
  cmdFlags := RedisCommandFlags.none.asU64
  arity := 2
  firstKey := 1
  lastKey := 1
  step := 1

/-- `CommandMetadata::with_arity`. -/
def withArity (md : CommandMetadata) (arity : BitVec 16) : CommandMetadata := { md with arity }

/-- `CommandMetadata::with_step`. -/
def withStep (md : CommandMetadata) (step : UInt16) : CommandMetadata := { md with step }

/-- `CommandMetadata::with_first_key`. -/
def withFirstKey (md : CommandMetadata) (firstKey : BitVec 16) : CommandMetadata :=
  { md with firstKey }

/-- `CommandMetadata::with_last_key`. -/
def withLastKey (md : CommandMetadata) (lastKey : BitVec 16) : CommandMetadata :=
  { md with lastKey }

/-- `CommandMetadata::set_flag`. -/
def setFlag (md : CommandMetadata) (flag : RedisCommandFlags) : CommandMetadata :=
  { md with cmdFlags := md.cmdFlags ||| flag.asU64 }

/-- `CommandMetadata::has_flag`. -/
def hasFlag (md : CommandMetadata) (flag : RedisCommandFlags) : Bool :=
  md.cmdFlags &&& flag.asU64 == flag.asU64

/-- `CommandMetadata::blocking`. -/
def blocking (md : CommandMetadata) : CommandMetadata := md.setFlag .blocking

/-- `CommandMetadata::write`. -/
def write (md : CommandMetadata) : CommandMetadata := md.setFlag .write

/-- `CommandMetadata::read_only`. -/
def readOnly (md : CommandMetadata) : CommandMetadata := md.setFlag .read

/-- `CommandMetadata::admin`. -/
def admin (md : CommandMetadata) : CommandMetadata := md.setFlag .admin

/-- `CommandMetadata::connection` ORs its flag in itself rather than through `set_flag`. -/
def connection (md : CommandMetadata) : CommandMetadata :=
  { md with cmdFlags := md.cmdFlags ||| RedisCommandFlags.connection.asU64 }

/-- `CommandMetadata::name`. -/
def name (md : CommandMetadata) : RedisCommandName := md.cmdName

/-- `CommandMetadata::is_write_command`. -/
def isWriteCommand (md : CommandMetadata) : Bool :=
  md.cmdFlags &&& RedisCommandFlags.write.asU64 == RedisCommandFlags.write.asU64

/-- The `flags` vector of `to_resp_v2`: a name pushed for each flag set, in the order tested. -/
def respFlags (md : CommandMetadata) : List String :=
  let flags : List String := []
  let flags := if md.hasFlag .read then flags ++ ["readonly"] else flags
  let flags := if md.hasFlag .write then flags ++ ["write"] else flags
  let flags := if md.hasFlag .blocking then flags ++ ["blocking"] else flags
  let flags := if md.hasFlag .admin then flags ++ ["admin"] else flags
  if md.hasFlag .connection then flags ++ ["connection"] else flags

/-- `CommandMetadata::to_resp_v2`: the entry of the `COMMAND` reply. -/
def toRespV2 (md : CommandMetadata) : RespBuffer :=
  let flags := md.respFlags
  let cmdname := utf8Bytes (toLowercase md.cmdName.debugString)
  let buffer := RespBuilderV2.addArrayLen [] 10
  let buffer := RespBuilderV2.addBulkString buffer cmdname
  let buffer := RespBuilderV2.addNumber buffer md.arity.toInt
  let buffer := RespBuilderV2.addStrings buffer flags
  let buffer := RespBuilderV2.addNumber buffer md.firstKey.toInt
  let buffer := RespBuilderV2.addNumber buffer md.lastKey.toInt
  let buffer := RespBuilderV2.addNumber buffer md.step.toNat
  let buffer := RespBuilderV2.addArrayLen buffer 0
  let buffer := RespBuilderV2.addArrayLen buffer 0
  let buffer := RespBuilderV2.addArrayLen buffer 0
  RespBuilderV2.addArrayLen buffer 0

/-! ### The `COMMAND` entry -/

/-- The flags `to_resp_v2` lists, with their names, in the order it tests them. -/
def flagNames : List (RedisCommandFlags × String) :=
  [(.read, "readonly"), (.write, "write"), (.blocking, "blocking"), (.admin, "admin"),
    (.connection, "connection")]

/-- The `COMMAND` entry of a metadata as the spec lays it out: the name, the arity, the flags,
the first key, the last key, the step, and four empty arrays (ACL categories, tips, key specs,
subcommands). -/
def commandInfo (md : CommandMetadata) : RespValue :=
  .array [.bulkString (utf8Bytes (toLowercase md.cmdName.debugString)), .number md.arity.toInt,
    .array ((flagNames.filter (md.hasFlag ·.1)).map fun flag => .bulkString (utf8Bytes flag.2)),
    .number md.firstKey.toInt, .number md.lastKey.toInt, .number md.step.toNat,
    .array [], .array [], .array [], .array []]

theorem respFlags_eq (md : CommandMetadata) :
    md.respFlags = (flagNames.filter (md.hasFlag ·.1)).map (·.2) := by
  simp only [respFlags, flagNames, List.filter_cons, List.filter_nil]
  cases md.hasFlag .read <;> cases md.hasFlag .write <;> cases md.hasFlag .blocking <;>
    cases md.hasFlag .admin <;> cases md.hasFlag .connection <;> rfl

theorem toRespV2_eq_frames (md : CommandMetadata) : md.toRespV2 = (commandInfo md).frames := by
  simp only [toRespV2, commandInfo, respFlags_eq, RespValue.frames, RespValue.framesList,
    RespValue.framesList_map_bulkString, RespBuilderV2.addArrayLen, RespBuilderV2.addBulkString,
    RespBuilderV2.addNumber, RespBuilderV2.addStrings, List.map_map, List.length_map,
    List.append_assoc, List.singleton_append, List.nil_append, List.cons_append]
  rfl

end CommandMetadata

/-- `CommandsManager`: the command table, a map from command name to metadata, as the list of its
entries in the order it is iterated. -/
structure CommandsManager where
  cmds : List (String × CommandMetadata)

namespace CommandsManager

/-- `CommandsManager::metadata`: the entry of a name, or a `NotSupported` entry made on the spot. -/
def metadata (m : CommandsManager) (cmdname : String) : CommandMetadata :=
  match m.cmds.lookup cmdname with
  | some t => t
  | none => CommandMetadata.new (.notSupported ("unsupported command " ++ cmdname))

theorem mem_of_lookup_eq_some {cmds : List (String × CommandMetadata)} {cmdname : String}
    {md : CommandMetadata} (h : cmds.lookup cmdname = some md) : (cmdname, md) ∈ cmds := by
  obtain ⟨l₁, l₂, rfl, -⟩ := List.lookup_eq_some_iff.1 h
  exact List.mem_append_right l₁ (List.mem_cons_self _ l₂)

/-- `CommandsManager::cmmand_output`: the `COMMAND` reply. -/
def cmmandOutput (m : CommandsManager) : RespBuffer :=
  m.cmds.foldl (fun buffer cmd => RespBuilderV2.addRespString buffer cmd.2.toRespV2)
    (RespBuilderV2.addArrayLen [] m.cmds.length)

/-- `CommandsManager::cmmand_docs_output`: the `COMMAND DOCS` reply. -/
def cmmandDocsOutput (m : CommandsManager) : RespBuffer :=
  m.cmds.foldl
    (fun buffer cmd =>
      RespBuilderV2.addEmptyArray (RespBuilderV2.addBulkStringU8Arr buffer (utf8Bytes cmd.1)))
    (RespBuilderV2.addArrayLen [] (m.cmds.length * 2))

theorem foldl_addRespString (cmds : List (String × CommandMetadata)) (buffer : RespBuffer) :
    cmds.foldl (fun buffer cmd => RespBuilderV2.addRespString buffer cmd.2.toRespV2) buffer =
      buffer ++ RespValue.framesList (cmds.map fun cmd => cmd.2.commandInfo) := by
  induction cmds generalizing buffer with
  | nil => exact (List.append_nil buffer).symm
  | cons cmd cmds ih =>
    rw [List.foldl_cons, ih, RespBuilderV2.addRespString, CommandMetadata.toRespV2_eq_frames,
      List.map_cons, RespValue.framesList, List.append_assoc]

theorem foldl_addDocs (cmds : List (String × CommandMetadata)) (buffer : RespBuffer) :
    cmds.foldl
        (fun buffer cmd =>
          RespBuilderV2.addEmptyArray (RespBuilderV2.addBulkStringU8Arr buffer (utf8Bytes cmd.1)))
        buffer =
      buffer ++
        RespValue.framesList (cmds.flatMap fun cmd => [.bulkString (utf8Bytes cmd.1), .array []]) := by
  induction cmds generalizing buffer with
  | nil => exact (List.append_nil buffer).symm
  | cons cmd cmds ih =>
    rw [List.foldl_cons, ih, List.flatMap_cons, RespValue.framesList_append]
    simp only [RespBuilderV2.addEmptyArray, RespBuilderV2.addArrayLen,
      RespBuilderV2.addBulkStringU8Arr, RespBuilderV2.addBulkString, RespValue.framesList,
      RespValue.frames, List.length_nil, List.append_assoc, List.singleton_append, List.nil_append,
      List.cons_append]

/-- **A client reads the `COMMAND` and `COMMAND DOCS` replies as the whole table.**  Whatever the
table holds and whatever order it is iterated in, `cmmand_output` is read as the array of every
entry's ten items, and `cmmand_docs_output` as the array that follows every name with an empty
array: the lengths the two replies announce are the numbers of items they write. -/
theorem command_reply_read (m : CommandsManager) :
    readReply m.cmmandOutput = some (.array (m.cmds.map fun cmd => cmd.2.commandInfo)) ∧
      readReply m.cmmandDocsOutput =
        some (.array (m.cmds.flatMap fun cmd => [.bulkString (utf8Bytes cmd.1), .array []])) := by
  have hdocs : (m.cmds.flatMap fun cmd => [RespValue.bulkString (utf8Bytes cmd.1), .array []]).length =
      m.cmds.length * 2 := by
    induction m.cmds with
    | nil => rfl
    | cons cmd cmds ih =>
      rw [List.flatMap_cons, List.length_append, ih]
      simp only [List.length_cons, List.length_nil]
      omega
  rw [readReply_eq_some_iff, readReply_eq_some_iff, cmmandOutput, cmmandDocsOutput,
    foldl_addRespString, foldl_addDocs, RespValue.frames, RespValue.frames, List.length_map, hdocs]
  exact ⟨rfl, rfl⟩

/-- `CommandsManager::default`: the command table. -/
def default : CommandsManager where
  cmds := [
    ("config", CommandMetadata.new .config |>.readOnly |>.withArity (-2) |>.withFirstKey 0
      |>.withLastKey 0 |>.withStep 0),
    ("info", CommandMetadata.new .info |>.readOnly |>.withArity (-1) |>.withFirstKey 0
      |>.withLastKey 0 |>.withStep 0),
    -- string commands
    ("append", CommandMetadata.new .append |>.write |>.withArity 3),
    ("decr", CommandMetadata.new .decr |>.write |>.withArity 2),
    ("decrby", CommandMetadata.new .decrBy |>.write |>.withArity 3),
    ("incr", CommandMetadata.new .incr |>.write |>.withArity 2),
    ("incrby", CommandMetadata.new .incrBy |>.write |>.withArity 3),
    ("incrbyfloat", CommandMetadata.new .incrByFloat |>.write |>.withArity 3),
    ("set", CommandMetadata.new .set |>.write |>.withArity 3),
    ("get", CommandMetadata.new .get |>.readOnly |>.withArity 2),
    ("getdel", CommandMetadata.new .getDel |>.write |>.withArity 2),
    ("getset", CommandMetadata.new .getSet |>.write |>.withArity 3),
    ("getex", CommandMetadata.new .getEx |>.write |>.withArity (-2)),
    ("getrange", CommandMetadata.new .getRange |>.readOnly |>.withArity 4),
    ("lcs", CommandMetadata.new .lcs |>.readOnly |>.withArity (-3) |>.withLastKey 2),
    ("mget", CommandMetadata.new .mget |>.readOnly |>.withArity (-2) |>.withLastKey (-1)),
    ("mset", CommandMetadata.new .mset |>.write |>.withArity (-3) |>.withLastKey (-1)
      |>.withStep 2),
    ("msetnx", CommandMetadata.new .msetnx |>.write |>.withArity (-3) |>.withLastKey (-1)
      |>.withStep 2),
    ("psetex", CommandMetadata.new .psetex |>.write |>.withArity 4),
    ("setex", CommandMetadata.new .setex |>.write |>.withArity 4),
    ("setnx", CommandMetadata.new .setnx |>.write |>.withArity 3),
    ("setrange", CommandMetadata.new .setRange |>.write |>.withArity 4),
    ("strlen", CommandMetadata.new .strlen |>.readOnly |>.withArity 2),
    ("substr", CommandMetadata.new .substr |>.readOnly |>.withArity 4),
    -- list commands
    ("lpush", CommandMetadata.new .lpush |>.write |>.withArity (-3)),
    ("lpushx", CommandMetadata.new .lpushx |>.write |>.withArity (-3)),
    ("rpush", CommandMetadata.new .rpush |>.write |>.withArity (-3)),
    ("rpushx", CommandMetadata.new .rpushx |>.write |>.withArity (-3)),
    ("lpop", CommandMetadata.new .lpop |>.write |>.withArity (-2)),
    ("rpop", CommandMetadata.new .rpop |>.write |>.withArity (-2)),
    ("llen", CommandMetadata.new .llen |>.readOnly |>.withArity 2),
    ("lindex", CommandMetadata.new .lindex |>.readOnly |>.withArity 4),
    ("linsert", CommandMetadata.new .linsert |>.write |>.withArity 5),
    ("lset", CommandMetadata.new .lset |>.write |>.withArity 4),
    ("lpos", CommandMetadata.new .lpos |>.readOnly |>.withArity (-3)),
    ("ltrim", CommandMetadata.new .ltrim |>.write |>.withArity 4),
    ("lrange", CommandMetadata.new .lrange |>.readOnly |>.withArity 4),
    ("lrem", CommandMetadata.new .lrem |>.write |>.withArity 4),
    ("lmove", CommandMetadata.new .lmove |>.write |>.withArity 5 |>.withLastKey 2),
    ("rpoplpush", CommandMetadata.new .rpoplpush |>.write |>.withArity 3 |>.withLastKey 2),
    ("lmpop", CommandMetadata.new .lmpop |>.write |>.withArity (-4) |>.withFirstKey 0
      |>.withLastKey 0 |>.withStep 0),
    ("brpoplpush", CommandMetadata.new .brpoplpush |>.write |>.blocking |>.withArity 4
      |>.withLastKey 2),
    ("blpop", CommandMetadata.new .blpop |>.write |>.blocking |>.withArity (-3)
      |>.withLastKey (-2)),
    ("blmove", CommandMetadata.new .blmove |>.write |>.blocking |>.withArity 6 |>.withLastKey 2),
    ("blmpop", CommandMetadata.new .blmpop |>.write |>.blocking |>.withArity (-5) |>.withFirstKey 0
      |>.withLastKey 0 |>.withStep 0),
    ("brpop", CommandMetadata.new .brpop |>.write |>.blocking |>.withArity (-3)
      |>.withLastKey (-2)),
    -- Client commands
    ("client", CommandMetadata.new .client |>.connection),
    ("select", CommandMetadata.new .select |>.connection |>.withArity 2 |>.withFirstKey 0
      |>.withLastKey 0 |>.withStep 0),
    -- Server commands
    ("replicaof", CommandMetadata.new .replicaOf |>.admin |>.withArity 3 |>.withFirstKey 0
      |>.withLastKey 0 |>.withStep 0),
    ("slaveof", CommandMetadata.new .slaveOf |>.admin |>.withArity 3 |>.withFirstKey 0
      |>.withLastKey 0 |>.withStep 0),
    ("ping", CommandMetadata.new .ping |>.readOnly |>.withArity (-1) |>.withFirstKey 0
      |>.withLastKey 0 |>.withStep 0),
    ("command", CommandMetadata.new .command |>.withArity (-1) |>.withFirstKey 0 |>.withLastKey 0
      |>.withStep 0),
    -- generic commands
    ("ttl", CommandMetadata.new .ttl |>.readOnly |>.withArity 2),
    ("del", CommandMetadata.new .del |>.write |>.withArity (-2) |>.withLastKey (-1)),
    ("exists", CommandMetadata.new .«exists» |>.readOnly |>.withArity (-2) |>.withLastKey (-1)),
    ("expire", CommandMetadata.new .expire |>.write |>.withArity (-3)),
    -- Hash commands
    ("hset", CommandMetadata.new .hset |>.write |>.withArity (-4)),
    ("hmset", CommandMetadata.new .hmset |>.write |>.withArity (-4)),
    ("hget", CommandMetadata.new .hget |>.readOnly |>.withArity 3),
    ("hdel", CommandMetadata.new .hdel |>.write |>.withArity (-3)),
    ("hlen", CommandMetadata.new .hlen |>.readOnly |>.withArity 2),
    ("hexists", CommandMetadata.new .hexists |>.readOnly |>.withArity 3),
    ("hgetall", CommandMetadata.new .hgetall |>.readOnly |>.withArity 2),
    ("hincrbyfloat", CommandMetadata.new .hincrbyfloat |>.write |>.withArity 4),
    ("hincrby", CommandMetadata.new .hincrby |>.write |>.withArity 4),
    ("hkeys", CommandMetadata.new .hkeys |>.readOnly |>.withArity 2),
    ("hvals", CommandMetadata.new .hvals |>.readOnly |>.withArity 2),
    ("hmget", CommandMetadata.new .hmget |>.readOnly |>.withArity (-3)),
    ("hrandfield", CommandMetadata.new .hrandfield |>.readOnly |>.withArity (-2))
  ]

/- The registry routes `DEL` to its handler, and answers a name it does not know with a
`NotSupported` entry that is no write command. -/
example :
    (default.metadata "del").name = .del ∧ (default.metadata "del").isWriteCommand = true ∧
      (default.metadata "nosuchcmd").isWriteCommand = false := ⟨rfl, rfl, rfl⟩

end CommandsManager

/-- Modelled from the spec: `RedisCommand::metadata`, the registry's entry for the lowercased
command name. -/
def RedisCommand.metadata (c : RedisCommand) : CommandMetadata :=
  CommandsManager.default.metadata c.mainCommand

end SableDb
