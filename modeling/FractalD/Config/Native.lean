import FractalD.Config.SyscallFilter

namespace FractalD.Config.Native

open FractalD.Config.SyscallFilter FractalD.Config.Words FractalD.Machine.CString
open FractalD.Machine.OrderedMap FractalD.Machine.Text

def hasContinuation (value : Str) : Bool := (value.reverse.takeWhile (· = '\\')).length % 2 = 1

/-- The keys that each section may have. -/
def schema : List (List String × List String) :=
  [(["service"],
      ["description", "kind", "exec", "exec_pre", "exec_post", "exec_stop_post", "exec_condition",
        "stop", "reload", "restart", "restart_delay", "start_timeout", "stop_timeout",
        "runtime_limit", "kill_signal", "restart_kill_signal", "send_sighup", "ignore_sigpipe",
        "remain_after_exit", "refuse_manual_start", "refuse_manual_stop", "stop_when_unneeded",
        "default_dependencies", "allow_isolate", "ignore_on_isolate", "working_directory",
        "pid_file", "user", "group", "dynamic_user", "supplementary_groups", "cgroup_slice",
        "environment", "environment_file", "unset_environment", "stdout", "stderr", "stdin",
        "tty", "watchdog", "notify_access", "success_exit_status",
        "restart_prevent_exit_status", "bus_name"]),
    (["dependencies"],
      ["requires", "wants", "after", "before", "conflicts", "part_of", "binds_to", "requisite",
        "on_success", "on_failure", "requires_mount", "wants_mount", "default_dependencies",
        "allow_isolate", "ignore_on_isolate", "stop_when_unneeded"]),
    (["install"],
      ["alias", "profile", "profiles", "default_dependencies", "allow_isolate",
        "ignore_on_isolate", "stop_when_unneeded"]),
    (["paths"],
      ["configuration", "configuration_mode", "configuration_preserve", "runtime",
        "runtime_mode", "runtime_preserve", "state", "state_mode", "state_preserve", "cache",
        "cache_mode", "cache_preserve", "logs", "logs_mode", "logs_preserve"]),
    (["credentials"], ["file", "value", "store", "import"]),
    (["conditions", "assertions"],
      ["path_exists", "path_exists_glob", "directory_not_empty", "executable", "read_write",
        "directory", "file_not_empty", "mount_point", "symlink", "kernel_command_line",
        "virtualization", "security", "ac_power", "capability", "kernel_module", "firmware",
        "first_boot", "credential", "cgroup_controller", "environment", "needs_update"]),
    (["security"],
      ["no_new_privileges", "memory_deny_write_execute", "restrict_realtime",
        "restrict_suid_sgid", "protect_control_groups", "protect_kernel_modules",
        "protect_kernel_tunables", "protect_kernel_logs", "protect_clock", "protect_hostname",
        "lock_personality", "umask", "nice", "oom_score_adjust", "oom_policy", "private_tmp",
        "private_devices", "private_mounts", "private_ipc", "private_network", "device_policy",
        "device_allow", "delegate", "private_users", "restrict_namespaces", "protect_system",
        "protect_home", "protect_proc", "proc_subset", "read_write", "read_only",
        "inaccessible", "capability_bounding_set", "ambient_capabilities", "address_families",
        "syscall_architectures", "syscall_error_number", "syscall_filter"]),
    (["resources"],
      ["memory_max", "memory_high", "memory_min", "memory_low", "memory_swap_max", "tasks_max",
        "cpu_weight", "io_weight", "cpu_quota", "cpu_quota_period", "nofile", "memlock", "nproc",
        "start_limit_interval", "start_limit_burst"]),
    (["manager"], ["failure_action", "success_action", "job_timeout", "job_timeout_action"]),
    (["listen"],
      ["accept", "service", "fd_name", "remove_on_stop", "mode", "user", "group", "stream",
        "datagram", "sequential_packet", "fifo", "netlink", "special"]),
    (["timer"],
      ["service", "on_boot", "on_active", "on_inactive", "calendar", "persistent",
        "random_delay", "accuracy"]),
    (["watch"],
      ["service", "changed", "modified", "exists", "exists_glob", "directory_not_empty"]),
    (["mount"],
      ["what", "where", "type", "options", "directory_mode", "lazy", "force", "timeout"]),
    (["swap"], ["what", "options", "priority", "timeout"]),
    (["device"], ["path"])]

def allowed (sectionName : Str) : Option (List Str) :=
  (schema.find? fun entry => sectionName ∈ entry.1.map String.toList).map fun entry =>
    entry.2.map String.toList

def validateDirective (sectionName : Str) (keys : List Str) (directive : Directive) :
    Except ConfigError Unit :=
  if directive.key ∈ keys then pure ()
  else throw ⟨some directive.line,
    "unsupported native directive ".toList ++ sectionName ++ '.' :: directive.key⟩

def validateSection (entry : Str × List Directive) : Except ConfigError Unit :=
  match allowed entry.1 with
  | none => throw (.ofMessage ("unsupported native section [".toList ++ entry.1 ++ [']']))
  | some keys => entry.2.forM (validateDirective entry.1 keys)

def validateSchema (file : NativeFile) : Except ConfigError Unit :=
  file.sections.entries.forM validateSection

namespace NativeFile

variable (file : NativeFile)

def openSection (name : Str) : NativeFile :=
  ⟨file.sections.insert name ((file.sections.get name).getD [])⟩

def merge (overlay : NativeFile) : NativeFile :=
  ⟨file.sections.extendWith (fun directives more => directives.getD [] ++ more) overlay.sections⟩

def value (sectionName key : Str) : Option Str :=
  match (file.effectiveDirectives sectionName key).getLast? with
  | some directive => if directive.value = [] then none else some directive.value
  | none => none

end NativeFile

/-- What has been read of a file. -/
structure Reader where
  file : NativeFile := ⟨empty⟩
  sectionName : Option Str := none
  logical : Str := []
  logicalLine : Nat := 0

def isSectionName (name : Str) : Bool :=
  name ≠ [] && !name.any (fun c => c = '[' || c = ']') && name.all fun c => c.isAlphanum || c = '_'

def isKey (key : Str) : Bool :=
  key ≠ [] && key.all fun c => c.isAlphanum || c = '_' || c = '-'

/-- The name of a section, from a line that begins with a bracket. -/
def readHeader (line : Str) (number : Nat) : Except ConfigError Str :=
  if line.getLast? ≠ some ']' then throw (.atLine number "section header is missing its closing bracket")
  else
    let name := trim line.tail.dropLast
    if !isSectionName name then throw (.atLine number "invalid section name")
    else pure (lowercase name)

def readDirective (sectionName : Option Str) (line : Str) (number : Nat) :
    Except ConfigError Directive :=
  match sectionName with
  | none => throw (.atLine number "directive appears before a section header")
  | some sectionName =>
    match splitOnce '=' line with
    | none => throw (.atLine number "directive is missing '='")
    | some (key, value) =>
      if !isKey (trim key) then throw (.atLine number "invalid directive name")
      else pure ⟨sectionName, lowercase (trim key), trim value, number⟩

namespace Reader

variable (r : Reader)

/-- Read a line that may have been continued over several. -/
def readLogical (line : Str) (number : Nat) : Except ConfigError Reader :=
  if line = [] ∨ line.head? = some '#' ∨ line.head? = some ';' then pure r
  else if line.head? = some '[' then do
    let name ← readHeader line number
    pure { r with sectionName := some name, file := NativeFile.openSection r.file name }
  else do
    let directive ← readDirective r.sectionName line number
    pure { r with file := r.file.push directive }

def stripReturn (physical : Str) : Str := (removeSuffix ['\r'] physical).getD physical

def readPhysical (lineNumber : Nat) (physical : Str) : Except ConfigError Reader :=
  let physical := stripReturn physical
  let number := if r.logical = [] then lineNumber else r.logicalLine
  if hasContinuation physical then
    pure { r with
      logical := r.logical ++ trimEnd isWhitespace physical.dropLast ++ [' ']
      logicalLine := number }
  else do
    let r ← r.readLogical (trim (r.logical ++ physical)) number
    pure { r with logical := [], logicalLine := number }

def readLines (r : Reader) (lineNumber : Nat) : List Str → Except ConfigError Reader
  | [] => pure r
  | physical :: lines => do
    let r ← r.readPhysical lineNumber physical
    r.readLines (lineNumber + 1) lines

end Reader

def NativeFile.parse (source : Str) : Except ConfigError NativeFile := do
  let r ← Reader.readLines {} 1 (textLines source)
  if r.logical ≠ [] then throw (.atLine r.logicalLine "unterminated line continuation")
  else do
    validateSchema r.file
    pure r.file

end FractalD.Config.Native
