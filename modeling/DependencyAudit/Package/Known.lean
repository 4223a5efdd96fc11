/-!
Packages that no manifest has to account for: modules that the runtime itself
brings, and packages that tools pull in without any import in the text.
-/

namespace DependencyAudit.Package

/-- Modules of the runtime by top-level name.  Their sub-modules need no entry
of their own, because a specifier is cut down to its package first. -/
def builtins : List String :=
  ["_http_agent", "_http_client", "_http_common", "_http_incoming", "_http_outgoing",
   "_http_server", "_stream_duplex", "_stream_passthrough", "_stream_readable",
   "_stream_transform", "_stream_wrap", "_stream_writable", "_tls_common", "_tls_wrap",
   "assert", "async_hooks", "buffer", "child_process", "cluster", "console", "constants",
   "crypto", "dgram", "diagnostics_channel", "dns", "domain", "events", "fs", "http",
   "http2", "https", "inspector", "module", "net", "os", "path", "perf_hooks", "process",
   "punycode", "querystring", "readline", "repl", "stream", "string_decoder", "sys",
   "timers", "tls", "trace_events", "tty", "url", "util", "v8", "vm", "wasi",
   "worker_threads", "zlib"]

/-- Helpers of compilers and test runners that are used without being named. -/
def implicits : List String :=
  ["tslib", "@babel/runtime", "babel-runtime", "regenerator-runtime", "jest"]

def isBuiltin (name : String) : Bool :=
  builtins.contains name

def isImplicit (name : String) : Bool :=
  implicits.contains name

end DependencyAudit.Package
