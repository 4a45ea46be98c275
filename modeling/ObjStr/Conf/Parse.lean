/-
  ObjStr.Conf.Parse — the config files of a cluster (`shardedobjstr/src/config.rs`).

  A flat file lists the shards of one cluster, each with a `shard` line. A tree file has a node for each cluster: a line with
  `rf=`, and below it, indented more, its shards and the nodes of its children. Global directives stand in front, not indented.
  Both parsers skip the daemon's directives, so that one file serves both programs, and `load_auto_conf` decides from the text
  which of them it is for.

  A `usize` has 64 bits. Reading the file is not modelled: a config is parsed from its text.
-/

import ObjStr.Conf.Lines
import ObjStr.Lib.Outline

namespace ObjStr.Conf

open ObjStr.Lib ObjStr.Raw

/-! ## Shards -/

structure RawShard where
  path : Text
  readOnly : Bool := false
  compression : Option Text := none
  directIo : Option Bool := none
  sizeMb : Option UInt64 := none
  deriving DecidableEq, Repr

structure S3Shard where
  endpoint : Text := []
  bucket : Text := []
  region : Option Text := none
  accessKey : Option Text := none
  secretKey : Option Text := none
  pathStyle : Bool := false
  deriving DecidableEq, Repr

inductive ShardConf where
  | raw (shard : RawShard)
  | fs (root : Text) (readOnly : Bool)
  | s3 (shard : S3Shard)
  | mem
  /-- The node of this name, below. -/
  | node (name : Text)
  deriving DecidableEq, Repr

def isReadOnlyFlag (tok : Text) : Bool := ["readonly".toList, "read_only".toList, "read-only".toList].contains tok

def isTrue (val : Text) : Bool := val = "true".toList || val = "1".toList

def stripEither (word word' tok : Text) : Option Text := (stripPrefix word tok).or (stripPrefix word' tok)

/-- What an option makes of the shard; `none` if it is none, and the text where a size should stand. -/
def RawShard.set (s : RawShard) (tok : Text) : Option (Except Text RawShard) :=
  if isReadOnlyFlag tok then some (.ok { s with readOnly := true })
  else if tok = "direct_io".toList || tok = "direct-io".toList then some (.ok { s with directIo := some true })
  else match stripPrefix "compression=".toList tok with
    | some val => some (.ok { s with compression := some val })
    | none =>
      match stripEither "size_mb=".toList "size-mb=".toList tok with
      | some val =>
        match parseU64 val with
        | some n => some (.ok { s with sizeMb := some n })
        | none => some (.error val)
      | none => (stripEither "direct_io=".toList "direct-io=".toList tok).map fun val =>
          .ok { s with directIo := some (isTrue val) }

def S3Shard.set (s : S3Shard) (tok : Text) : Option S3Shard :=
  match stripPrefix "endpoint=".toList tok with
  | some val => some { s with endpoint := val }
  | none =>
    match stripPrefix "bucket=".toList tok with
    | some val => some { s with bucket := val }
    | none =>
      match stripPrefix "region=".toList tok with
      | some val => some { s with region := some val }
      | none =>
        match stripPrefix "access_key=".toList tok with
        | some val => some { s with accessKey := some val }
        | none =>
          match stripPrefix "secret_key=".toList tok with
          | some val => some { s with secretKey := some val }
          | none =>
            if tok = "path_style".toList || tok = "path_style=true".toList then some { s with pathStyle := true } else none

def rawOption (line : Nat) (s : RawShard) (tok : Text) : Except String RawShard :=
  match s.set tok with
  | some (.ok s) => .ok s
  | some (.error val) => .error s!"line {line}: invalid size_mb '{String.ofList val}'"
  | none => .error s!"line {line}: unknown raw shard option '{String.ofList tok}'"

def parseRawShard (line : Nat) : List Text → Except String ShardConf
  | [] => .error s!"line {line}: raw shard missing path"
  | first :: opts => do
    let s ← opts.foldlM (rawOption line) { path := (stripPrefix "path=".toList first).getD first }
    pure (.raw s)

def parseFsShard (line : Nat) : List Text → Except String ShardConf
  | [] => .error s!"line {line}: fs shard missing root path"
  | first :: opts => do
    let readOnly ← opts.foldlM (fun _ tok =>
      if isReadOnlyFlag tok then .ok true
      else .error s!"line {line}: unknown fs shard option '{String.ofList tok}'") false
    pure (.fs ((stripPrefix "root=".toList first).getD first) readOnly)

def s3Option (line : Nat) (s : S3Shard) (tok : Text) : Except String S3Shard :=
  match s.set tok with
  | some s => .ok s
  | none => .error s!"line {line}: unknown s3 shard option '{String.ofList tok}'"

def parseS3Shard (line : Nat) (tokens : List Text) : Except String ShardConf := do
  let s ← tokens.foldlM (s3Option line) {}
  if s.endpoint.isEmpty then .error s!"line {line}: s3 shard missing endpoint="
  else if s.bucket.isEmpty then .error s!"line {line}: s3 shard missing bucket="
  else pure (.s3 s)

def parseShardTokens (line : Nat) : List Text → Except String ShardConf
  | [] => .error s!"line {line}: shard line has no type or path"
  | kind :: toks =>
    if kind = "raw".toList then parseRawShard line toks
    else if kind = "fs".toList then parseFsShard line toks
    else if kind = "s3".toList then parseS3Shard line toks
    else if kind = "mem".toList then .ok .mem
    else parseRawShard line (kind :: toks)

def parseTreeShardLine (line : Text) : Except String ShardConf := do
  match ← tokenize line with
  | [] => .error "empty shard line"
  | kind :: toks =>
    if kind = "raw".toList then parseRawShard 0 toks
    else if kind = "fs".toList then parseFsShard 0 toks
    else if kind = "s3".toList then parseS3Shard 0 toks
    else if kind = "mem".toList then .ok .mem
    else if kind.head? = some '/' || kind.contains '.' then parseRawShard 0 (kind :: toks)
    else .error s!"unknown shard type: '{String.ofList kind}' (expected raw, fs, s3, mem)"

/-! ## Nodes -/

structure TreeNode where
  name : Text
  replicationFactor : UInt64
  minWrites : Option UInt64
  shards : List ShardConf
  children : List TreeNode

structure NodeLine where
  name : Text
  rf : UInt64 := 1
  minWrites : Option UInt64 := none
  deriving DecidableEq, Repr

def isTreeNodeLine (line : Text) : Bool :=
  !(["raw".toList, "fs".toList, "s3".toList, "mem".toList, "shard".toList].contains (firstWord line)) &&
    contains "rf=".toList line

def NodeLine.set (n : NodeLine) (part : Text) : Except String NodeLine :=
  match stripPrefix "rf=".toList part with
  | some val =>
    match parseU64 val with
    | none => .error s!"node '{String.ofList n.name}': invalid rf value: {String.ofList val}"
    | some rf => if rf = 0 then .error s!"node '{String.ofList n.name}': rf must be >= 1" else .ok { n with rf }
  | none =>
    match stripPrefix "min_writes=".toList part with
    | some val =>
      match parseU64 val with
      | none => .error s!"node '{String.ofList n.name}': invalid min_writes value: {String.ofList val}"
      | some v =>
        if v = 0 then .error s!"node '{String.ofList n.name}': min_writes must be >= 1" else .ok { n with minWrites := some v }
    | none => .ok n

/-- No more writes are asked for than there are replicas. -/
def NodeLine.checked (n : NodeLine) : Except String NodeLine :=
  match n.minWrites with
  | some v =>
    if n.rf < v then .error s!"node '{String.ofList n.name}': min_writes ({v}) must be <= rf ({n.rf})" else .ok n
  | none => .ok n

def parseTreeNodeLine (line : Text) : Except String NodeLine := do
  match ← tokenize line with
  | [] => .error "empty node line"
  | name :: parts => do
    let n ← parts.foldlM NodeLine.set { name }
    n.checked

/-- The shard that stands for it in the node above. -/
def asShard : ShardConf ⊕ TreeNode → ShardConf
  | .inl shard => shard
  | .inr child => .node child.name

def TreeNode.of (n : NodeLine) (items : List (ShardConf ⊕ TreeNode)) : TreeNode where
  name := n.name
  replicationFactor := n.rf
  minWrites := n.minWrites
  shards := items.map asShard
  children := items.filterMap Sum.getRight?

def treeOutline : Outline Text NodeLine ShardConf TreeNode String where
  isHeader := isTreeNodeLine
  header := parseTreeNodeLine
  leaf := parseTreeShardLine
  build := TreeNode.of

def parseTreeNodeBlock (lines : List (Nat × Text)) : Except String (TreeNode × List (Nat × Text)) :=
  treeOutline.block "unexpected end of config" lines

/-! ## Tree files -/

structure TreeGlobals where
  clusterName : Text := []
  catalog : Option Text := none
  readPrefer : Option Text := none
  compression : Option Text := none
  directIo : Bool := false
  sizeMb : Option UInt64 := none
  readOnly : Bool := false
  deriving DecidableEq, Repr

structure TreeConf extends TreeGlobals where
  root : TreeNode

def treeDaemonDirectives : List Text :=
  ["bucket", "flush_interval", "admin_token", "access_key", "secret_key", "cors_origin", "log_file", "log_buffer_size",
    "event_socket", "event_secret", "max_readers", "event_source", "catalog_path", "catalog_format",
    "catalog_flush_interval"].map String.toList

def isSweepDirective (key : Text) : Bool := "recovery_".toList.isPrefixOf key || "repair_replication_".toList.isPrefixOf key

def isReadPrefer (val : Text) : Bool := val = "round-robin".toList || val = "ordered".toList

/-- `line.splitn(2, char::is_whitespace)`: the key, and the value without white space around it. -/
def splitKey (line : Text) : Text × Option Text :=
  (firstWord line, match line.dropWhile (!isWhitespace ·) with
    | [] => none
    | _ :: val => some (trim val))

/-- What a directive makes of the globals; `none` if it is none. -/
def TreeGlobals.set (g : TreeGlobals) (key : Text) (val : Option Text) : Except String (Option TreeGlobals) :=
  if key = "cluster".toList then .ok (some { g with clusterName := val.getD [] })
  else if key = "catalog".toList then .ok (some { g with catalog := val })
  else if key = "read_prefer".toList then
    match val with
    | none => .ok (some g)
    | some v =>
      if isReadPrefer v then .ok (some { g with readPrefer := some v })
      else .error s!"unknown read_prefer '{String.ofList v}' (expected round-robin or ordered)"
  else if key = "replicas".toList then .ok (some g)
  else if key = "compression".toList then .ok (some { g with compression := val })
  else if key = "direct_io".toList then .ok (some { g with directIo := val.all isTrue })
  else if key = "size_mb".toList then
    match val with
    | none => .ok (some g)
    | some v =>
      match parseU64 v with
      | some n => .ok (some { g with sizeMb := some n })
      | none => .error s!"invalid size_mb: {String.ofList v}"
  else if key = "read_only".toList then .ok (some { g with readOnly := val.all isTrue })
  else if treeDaemonDirectives.contains key || isSweepDirective key then .ok (some g)
  else .ok none

/-- A directive that is not indented is taken; what remains are the lines of nodes and shards. -/
def topLine (acc : TreeGlobals × List (Nat × Text)) (l : Nat × Text) : Except String (TreeGlobals × List (Nat × Text)) :=
  if l.1 = 0 then
    match acc.1.set (splitKey l.2).1 (splitKey l.2).2 with
    | .error e => .error e
    | .ok (some g) => .ok (g, acc.2)
    | .ok none => .ok (acc.1, acc.2 ++ [l])
  else .ok (acc.1, acc.2 ++ [l])

/-- What is left of the lines behind the block of the first node is not looked at. -/
def parseTreeConf (text : Text) : Except String TreeConf := do
  let (g, remaining) ← (contentLines text).foldlM topLine ({}, [])
  if remaining.isEmpty then .error "no nodes defined in tree config"
  else do
    let (root, _) ← parseTreeNodeBlock remaining
    pure { g with clusterName := if g.clusterName.isEmpty then root.name else g.clusterName, root }

/-! ## Flat files -/

structure ClusterConf where
  replicas : UInt64 := 1
  minWrites : Option UInt64 := none
  catalog : Option Text := none
  readPrefer : Option Text := none
  directIo : Bool := false
  compression : Option Text := none
  sizeMb : Option UInt64 := none
  readOnly : Bool := false
  deleteRequiresMinWrites : Bool := false
  shards : List ShardConf := []
  deriving DecidableEq, Repr

def daemonDirectives : List Text := "cluster".toList :: treeDaemonDirectives

def requireValue (args : List Text) (key : String) (line : Nat) : Except String Text :=
  match args.head? with
  | some val => .ok val
  | none => .error s!"line {line}: '{key}' requires a value"

def parseCount (val : Text) (key : String) (line : Nat) : Except String UInt64 :=
  match parseU64 val with
  | none => .error s!"line {line}: invalid {key} '{String.ofList val}'"
  | some n => if n = 0 then .error s!"line {line}: {key} must be >= 1" else .ok n

/-- What a line of a flat file makes of the config: its directive, with its arguments. -/
def ClusterConf.set (c : ClusterConf) (line : Nat) (trimmed key : Text) (args : List Text) : Except String ClusterConf := do
  if key = "replicas".toList then
    let val ← requireValue args "replicas" line
    pure { c with replicas := ← parseCount val "replicas" line }
  else if key = "min_writes".toList then
    let val ← requireValue args "min_writes" line
    pure { c with minWrites := some (← parseCount val "min_writes" line) }
  else if key = "catalog".toList then pure { c with catalog := some (← requireValue args "catalog" line) }
  else if key = "read_prefer".toList then
    let val ← requireValue args "read_prefer" line
    if isReadPrefer val then pure { c with readPrefer := some val }
    else .error s!"line {line}: unknown read_prefer '{String.ofList val}' (expected round-robin or ordered)"
  else if key = "direct_io".toList then pure { c with directIo := args.head?.all isTrue }
  else if key = "compression".toList then pure { c with compression := some (← requireValue args "compression" line) }
  else if key = "size_mb".toList then
    let val ← requireValue args "size_mb" line
    match parseU64 val with
    | some n => pure { c with sizeMb := some n }
    | none => .error s!"line {line}: invalid size_mb '{String.ofList val}'"
  else if key = "read_only".toList then pure { c with readOnly := args.head?.all isTrue }
  else if key = "delete_requires_min_writes".toList then pure { c with deleteRequiresMinWrites := args.head?.all isTrue }
  else if key = "shard".toList then pure { c with shards := c.shards ++ [← parseShardTokens line args] }
  else if daemonDirectives.contains key || isSweepDirective key || contains "rf=".toList trimmed then pure c
  else .error s!"line {line}: unknown directive '{String.ofList key}' (expected replicas, min_writes, catalog, read_prefer, direct_io, compression, size_mb, read_only, or shard)"

/-- A line of the file: its number, its indentation and its text. Lines that are indented are skipped. -/
def flatLine (c : ClusterConf) (l : Nat × Nat × Text) : Except String ClusterConf :=
  if 0 < l.2.1 then .ok c
  else
    match tokenize l.2.2 with
    | .error e => .error s!"line {l.1}: {e}"
    | .ok [] => .ok c
    | .ok (key :: args) => c.set l.1 l.2.2 key args

def numberedLines (text : Text) : List (Nat × Nat × Text) :=
  (textLines text).zipIdx.filterMap fun raw => (contentLine raw.1).map fun l => (raw.2 + 1, l)

def ClusterConf.checked (c : ClusterConf) : Except String ClusterConf :=
  if c.shards.isEmpty then .error "no shards defined"
  else
    match c.minWrites with
    | some mw =>
      if c.replicas < mw then .error s!"min_writes ({mw}) must be <= replicas ({c.replicas})" else .ok c
    | none => .ok c

def parseClusterConf (text : Text) : Except String ClusterConf := do
  let c ← (numberedLines text).foldlM flatLine {}
  c.checked

/-! ## Which of them -/

def isTreeConfig (text : Text) : Bool := (contentLines text).any fun l => l.1 = 0 && isTreeNodeLine l.2

/-- A flat file is a tree of one node. -/
def ClusterConf.asTree (c : ClusterConf) : TreeConf where
  clusterName := []
  root := ⟨"root".toList, c.replicas, c.minWrites, c.shards, []⟩
  catalog := c.catalog
  readPrefer := c.readPrefer
  compression := c.compression
  directIo := c.directIo
  sizeMb := c.sizeMb
  readOnly := c.readOnly

def loadAutoConf (text : Text) : Except String TreeConf :=
  if isTreeConfig text then parseTreeConf text else (parseClusterConf text).map ClusterConf.asTree

end ObjStr.Conf
