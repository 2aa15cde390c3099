/-! # The command table (`internal/command/table.go`)

What the proxy knows of each command: its kind, where its keys are (the
convention of `COMMAND INFO`: positions count from the name at 0, a negative
last position counts from the end) and how it can be split across slots.
-/

namespace RespProxy.Command

/-- The classes of commands. -/
inductive Kind where
  | unknown | read | write | block | pubSub | txn | script | connection | admin
deriving DecidableEq, Repr

/-- How a command with several keys can be split across slots. -/
inductive Fanout where
  | none | sum | mget | mset
deriving DecidableEq, Repr

/-- Key positions; the zero value has none. -/
structure KeySpec where
  first : Nat := 0
  last : Int := 0
  step : Nat := 0
deriving DecidableEq, Repr

/-- Static metadata of a command. -/
structure Meta where
  kind : Kind
  keys : KeySpec := {}
  fanout : Fanout := .none
deriving DecidableEq, Repr

def spec (first : Nat) (last : Int) (step : Nat) : KeySpec := { first, last, step }

/-- The table, in the order of the source. -/
def table : List (String × Meta) :=
  [ -- strings
  ("GET", { kind := .read, keys := spec 1 1 1 }),
  ("SET", { kind := .write, keys := spec 1 1 1 }),
  ("SETNX", { kind := .write, keys := spec 1 1 1 }),
  ("SETEX", { kind := .write, keys := spec 1 1 1 }),
  ("PSETEX", { kind := .write, keys := spec 1 1 1 }),
  ("GETSET", { kind := .write, keys := spec 1 1 1 }),
  ("GETDEL", { kind := .write, keys := spec 1 1 1 }),
  ("GETEX", { kind := .write, keys := spec 1 1 1 }),
  ("MGET", { kind := .read, keys := spec 1 (-1) 1, fanout := .mget }),
  ("MSET", { kind := .write, keys := spec 1 (-1) 2, fanout := .mset }),
  ("MSETNX", { kind := .write, keys := spec 1 (-1) 2 }),
  ("APPEND", { kind := .write, keys := spec 1 1 1 }),
  ("STRLEN", { kind := .read, keys := spec 1 1 1 }),
  ("INCR", { kind := .write, keys := spec 1 1 1 }),
  ("DECR", { kind := .write, keys := spec 1 1 1 }),
  ("INCRBY", { kind := .write, keys := spec 1 1 1 }),
  ("DECRBY", { kind := .write, keys := spec 1 1 1 }),
  ("INCRBYFLOAT", { kind := .write, keys := spec 1 1 1 }),
  ("GETRANGE", { kind := .read, keys := spec 1 1 1 }),
  ("SETRANGE", { kind := .write, keys := spec 1 1 1 }),
  ("SETBIT", { kind := .write, keys := spec 1 1 1 }),
  ("GETBIT", { kind := .read, keys := spec 1 1 1 }),
  ("BITCOUNT", { kind := .read, keys := spec 1 1 1 }),
  ("BITPOS", { kind := .read, keys := spec 1 1 1 }),
  ("BITOP", { kind := .write, keys := spec 2 (-1) 1 }),
  ("BITFIELD", { kind := .write, keys := spec 1 1 1 }),
  ("SUBSTR", { kind := .read, keys := spec 1 1 1 }),
  -- keys
  ("DEL", { kind := .write, keys := spec 1 (-1) 1, fanout := .sum }),
  ("UNLINK", { kind := .write, keys := spec 1 (-1) 1, fanout := .sum }),
  ("EXISTS", { kind := .read, keys := spec 1 (-1) 1, fanout := .sum }),
  ("EXPIRE", { kind := .write, keys := spec 1 1 1 }),
  ("EXPIREAT", { kind := .write, keys := spec 1 1 1 }),
  ("PEXPIRE", { kind := .write, keys := spec 1 1 1 }),
  ("PEXPIREAT", { kind := .write, keys := spec 1 1 1 }),
  ("TTL", { kind := .read, keys := spec 1 1 1 }),
  ("PTTL", { kind := .read, keys := spec 1 1 1 }),
  ("TYPE", { kind := .read, keys := spec 1 1 1 }),
  ("PERSIST", { kind := .write, keys := spec 1 1 1 }),
  ("RENAME", { kind := .write, keys := spec 1 2 1 }),
  ("RENAMENX", { kind := .write, keys := spec 1 2 1 }),
  ("DUMP", { kind := .read, keys := spec 1 1 1 }),
  ("RESTORE", { kind := .write, keys := spec 1 1 1 }),
  ("TOUCH", { kind := .write, keys := spec 1 (-1) 1, fanout := .sum }),
  ("COPY", { kind := .write, keys := spec 1 2 1 }),
  ("MOVE", { kind := .write, keys := spec 1 1 1 }),
  ("OBJECT", { kind := .read, keys := spec 2 2 1 }),
  ("EXPIRETIME", { kind := .read, keys := spec 1 1 1 }),
  ("PEXPIRETIME", { kind := .read, keys := spec 1 1 1 }),
  -- hashes
  ("HGET", { kind := .read, keys := spec 1 1 1 }),
  ("HSET", { kind := .write, keys := spec 1 1 1 }),
  ("HSETNX", { kind := .write, keys := spec 1 1 1 }),
  ("HMGET", { kind := .read, keys := spec 1 1 1 }),
  ("HMSET", { kind := .write, keys := spec 1 1 1 }),
  ("HDEL", { kind := .write, keys := spec 1 1 1 }),
  ("HEXISTS", { kind := .read, keys := spec 1 1 1 }),
  ("HGETALL", { kind := .read, keys := spec 1 1 1 }),
  ("HINCRBY", { kind := .write, keys := spec 1 1 1 }),
  ("HINCRBYFLOAT", { kind := .write, keys := spec 1 1 1 }),
  ("HKEYS", { kind := .read, keys := spec 1 1 1 }),
  ("HVALS", { kind := .read, keys := spec 1 1 1 }),
  ("HLEN", { kind := .read, keys := spec 1 1 1 }),
  ("HSCAN", { kind := .read, keys := spec 1 1 1 }),
  ("HSTRLEN", { kind := .read, keys := spec 1 1 1 }),
  ("HRANDFIELD", { kind := .read, keys := spec 1 1 1 }),
  -- lists
  ("LPUSH", { kind := .write, keys := spec 1 1 1 }),
  ("RPUSH", { kind := .write, keys := spec 1 1 1 }),
  ("LPUSHX", { kind := .write, keys := spec 1 1 1 }),
  ("RPUSHX", { kind := .write, keys := spec 1 1 1 }),
  ("LPOP", { kind := .write, keys := spec 1 1 1 }),
  ("RPOP", { kind := .write, keys := spec 1 1 1 }),
  ("LLEN", { kind := .read, keys := spec 1 1 1 }),
  ("LINDEX", { kind := .read, keys := spec 1 1 1 }),
  ("LRANGE", { kind := .read, keys := spec 1 1 1 }),
  ("LSET", { kind := .write, keys := spec 1 1 1 }),
  ("LTRIM", { kind := .write, keys := spec 1 1 1 }),
  ("LREM", { kind := .write, keys := spec 1 1 1 }),
  ("LINSERT", { kind := .write, keys := spec 1 1 1 }),
  ("LMOVE", { kind := .write, keys := spec 1 2 1 }),
  ("RPOPLPUSH", { kind := .write, keys := spec 1 2 1 }),
  ("LMPOP", { kind := .write }),
  ("BLPOP", { kind := .block, keys := spec 1 (-2) 1 }),
  ("BRPOP", { kind := .block, keys := spec 1 (-2) 1 }),
  ("BRPOPLPUSH", { kind := .block, keys := spec 1 2 1 }),
  ("BLMOVE", { kind := .block, keys := spec 1 2 1 }),
  ("BLMPOP", { kind := .block }),
  ("LPOS", { kind := .read, keys := spec 1 1 1 }),
  -- sets
  ("SADD", { kind := .write, keys := spec 1 1 1 }),
  ("SREM", { kind := .write, keys := spec 1 1 1 }),
  ("SMEMBERS", { kind := .read, keys := spec 1 1 1 }),
  ("SISMEMBER", { kind := .read, keys := spec 1 1 1 }),
  ("SMISMEMBER", { kind := .read, keys := spec 1 1 1 }),
  ("SCARD", { kind := .read, keys := spec 1 1 1 }),
  ("SPOP", { kind := .write, keys := spec 1 1 1 }),
  ("SRANDMEMBER", { kind := .read, keys := spec 1 1 1 }),
  ("SMOVE", { kind := .write, keys := spec 1 2 1 }),
  ("SINTER", { kind := .read, keys := spec 1 (-1) 1 }),
  ("SINTERSTORE", { kind := .write, keys := spec 1 (-1) 1 }),
  ("SUNION", { kind := .read, keys := spec 1 (-1) 1 }),
  ("SUNIONSTORE", { kind := .write, keys := spec 1 (-1) 1 }),
  ("SDIFF", { kind := .read, keys := spec 1 (-1) 1 }),
  ("SDIFFSTORE", { kind := .write, keys := spec 1 (-1) 1 }),
  ("SSCAN", { kind := .read, keys := spec 1 1 1 }),
  ("SINTERCARD", { kind := .read }),
  -- zsets
  ("ZADD", { kind := .write, keys := spec 1 1 1 }),
  ("ZREM", { kind := .write, keys := spec 1 1 1 }),
  ("ZSCORE", { kind := .read, keys := spec 1 1 1 }),
  ("ZINCRBY", { kind := .write, keys := spec 1 1 1 }),
  ("ZCARD", { kind := .read, keys := spec 1 1 1 }),
  ("ZCOUNT", { kind := .read, keys := spec 1 1 1 }),
  ("ZRANGE", { kind := .read, keys := spec 1 1 1 }),
  ("ZREVRANGE", { kind := .read, keys := spec 1 1 1 }),
  ("ZRANGEBYSCORE", { kind := .read, keys := spec 1 1 1 }),
  ("ZREVRANGEBYSCORE", { kind := .read, keys := spec 1 1 1 }),
  ("ZRANK", { kind := .read, keys := spec 1 1 1 }),
  ("ZREVRANK", { kind := .read, keys := spec 1 1 1 }),
  ("ZRANGEBYLEX", { kind := .read, keys := spec 1 1 1 }),
  ("ZREVRANGEBYLEX", { kind := .read, keys := spec 1 1 1 }),
  ("ZLEXCOUNT", { kind := .read, keys := spec 1 1 1 }),
  ("ZREMRANGEBYRANK", { kind := .write, keys := spec 1 1 1 }),
  ("ZREMRANGEBYSCORE", { kind := .write, keys := spec 1 1 1 }),
  ("ZREMRANGEBYLEX", { kind := .write, keys := spec 1 1 1 }),
  ("ZPOPMIN", { kind := .write, keys := spec 1 1 1 }),
  ("ZPOPMAX", { kind := .write, keys := spec 1 1 1 }),
  ("BZPOPMIN", { kind := .block, keys := spec 1 (-2) 1 }),
  ("BZPOPMAX", { kind := .block, keys := spec 1 (-2) 1 }),
  ("BZMPOP", { kind := .block }),
  ("ZMPOP", { kind := .write }),
  ("ZUNIONSTORE", { kind := .write, keys := spec 1 1 1 }),
  ("ZINTERSTORE", { kind := .write, keys := spec 1 1 1 }),
  ("ZDIFFSTORE", { kind := .write, keys := spec 1 1 1 }),
  ("ZUNION", { kind := .read }),
  ("ZINTER", { kind := .read }),
  ("ZDIFF", { kind := .read }),
  ("ZSCAN", { kind := .read, keys := spec 1 1 1 }),
  ("ZMSCORE", { kind := .read, keys := spec 1 1 1 }),
  ("ZRANDMEMBER", { kind := .read, keys := spec 1 1 1 }),
  -- streams
  ("XADD", { kind := .write, keys := spec 1 1 1 }),
  ("XLEN", { kind := .read, keys := spec 1 1 1 }),
  ("XRANGE", { kind := .read, keys := spec 1 1 1 }),
  ("XREVRANGE", { kind := .read, keys := spec 1 1 1 }),
  ("XREAD", { kind := .read }),
  ("XREADGROUP", { kind := .read }),
  ("XACK", { kind := .write, keys := spec 1 1 1 }),
  ("XDEL", { kind := .write, keys := spec 1 1 1 }),
  ("XGROUP", { kind := .write, keys := spec 2 2 1 }),
  ("XINFO", { kind := .read, keys := spec 2 2 1 }),
  ("XPENDING", { kind := .read, keys := spec 1 1 1 }),
  ("XCLAIM", { kind := .write, keys := spec 1 1 1 }),
  ("XAUTOCLAIM", { kind := .write, keys := spec 1 1 1 }),
  ("XTRIM", { kind := .write, keys := spec 1 1 1 }),
  -- hyperloglog / geo / misc
  ("PFADD", { kind := .write, keys := spec 1 1 1 }),
  ("PFCOUNT", { kind := .read, keys := spec 1 (-1) 1 }),
  ("PFMERGE", { kind := .write, keys := spec 1 (-1) 1 }),
  ("GEOADD", { kind := .write, keys := spec 1 1 1 }),
  ("GEODIST", { kind := .read, keys := spec 1 1 1 }),
  ("GEOHASH", { kind := .read, keys := spec 1 1 1 }),
  ("GEOPOS", { kind := .read, keys := spec 1 1 1 }),
  ("GEORADIUS", { kind := .read, keys := spec 1 1 1 }),
  ("GEORADIUSBYMEMBER", { kind := .read, keys := spec 1 1 1 }),
  ("GEOSEARCH", { kind := .read, keys := spec 1 1 1 }),
  ("GEOSEARCHSTORE", { kind := .write, keys := spec 1 2 1 }),
  -- scripts
  ("EVAL", { kind := .script }),
  ("EVALSHA", { kind := .script }),
  ("EVAL_RO", { kind := .script }),
  ("EVALSHA_RO", { kind := .script }),
  ("SCRIPT", { kind := .admin }),
  -- txn
  ("MULTI", { kind := .txn }),
  ("EXEC", { kind := .txn }),
  ("DISCARD", { kind := .txn }),
  ("WATCH", { kind := .txn, keys := spec 1 (-1) 1 }),
  ("UNWATCH", { kind := .txn }),
  -- pubsub
  ("PUBLISH", { kind := .pubSub }),
  ("SPUBLISH", { kind := .pubSub }),
  ("SUBSCRIBE", { kind := .pubSub }),
  ("SSUBSCRIBE", { kind := .pubSub }),
  ("UNSUBSCRIBE", { kind := .pubSub }),
  ("SUNSUBSCRIBE", { kind := .pubSub }),
  ("PSUBSCRIBE", { kind := .pubSub }),
  ("PUNSUBSCRIBE", { kind := .pubSub }),
  ("PUBSUB", { kind := .pubSub }),
  -- connection / admin
  ("PING", { kind := .connection }),
  ("ECHO", { kind := .connection }),
  ("AUTH", { kind := .connection }),
  ("QUIT", { kind := .connection }),
  ("SELECT", { kind := .connection }),
  ("HELLO", { kind := .connection }),
  ("CLIENT", { kind := .connection }),
  ("RESET", { kind := .connection }),
  ("INFO", { kind := .admin }),
  ("CLUSTER", { kind := .admin }),
  ("COMMAND", { kind := .admin }),
  ("CONFIG", { kind := .admin }),
  ("DBSIZE", { kind := .admin }),
  ("FLUSHDB", { kind := .admin }),
  ("FLUSHALL", { kind := .admin }),
  ("TIME", { kind := .admin }),
  ("READONLY", { kind := .admin }),
  ("READWRITE", { kind := .admin }),
  ("SCAN", { kind := .admin }),
  ("KEYS", { kind := .admin }),
  ("RANDOMKEY", { kind := .admin }),
  ("MEMORY", { kind := .admin }),
  ("LATENCY", { kind := .admin }),
  ("ROLE", { kind := .admin }),
  ("LOLWUT", { kind := .admin }),
  ("REPLICAOF", { kind := .admin }),
  ("SLAVEOF", { kind := .admin }),
  ("WAIT", { kind := .admin }),
  ("JSON.GET", { kind := .read, keys := spec 1 1 1 }),
  ("JSON.SET", { kind := .write, keys := spec 1 1 1 }),
  ("JSON.DEL", { kind := .write, keys := spec 1 1 1 })]

/-- `table[name]`. -/
def lookup (name : String) : Option Meta := table.lookup name

end RespProxy.Command
