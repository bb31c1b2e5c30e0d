import LiveConfig.Consul
import LiveConfig.Kv.Watch
import LiveConfig.Store.Setup
import LiveConfig.Vault

/-!
# Settings

The options of watches, bases and clients, read from JSON. What is not given is as it is by default.
-/

namespace LiveConfig

namespace Kv.WatchOptions

def ofJson? (j : JsonText) : Option WatchOptions := do
  let f ← j.fields? ["wait", "retry_min", "retry_max"]
  return ⟨← f.durationOr? "wait" standard.wait, ← f.durationOr? "retry_min" standard.retryMin,
    ← f.durationOr? "retry_max" standard.retryMax⟩

end Kv.WatchOptions

namespace BaseOptions

def ofJson? (j : JsonText) : Option BaseOptions := do
  let f ← j.fields? ["config_dir", "file_name", "env_prefix", "env_separator"]
  return ⟨← f.textOr? "config_dir" standard.folder, ← f.textOr? "file_name" standard.fileName,
    ← f.optionalText? "env_prefix", ← f.textOr? "env_separator" standard.envSeparator⟩

end BaseOptions

namespace Consul

def ofJson? (j : JsonText) : Option Consul := do
  let f ← j.fields? ["address", "token", "datacenter", "timeout"]
  return ⟨← f.textOr? "address" standard.address, ← f.optionalText? "token",
    ← f.optionalText? "datacenter", ← f.durationOr? "timeout" standard.timeout⟩

end Consul

namespace Vault

def ofJson? (j : JsonText) : Option Vault := do
  let f ← j.fields? ["address", "token", "namespace", "timeout"]
  return ⟨← f.textOr? "address" standard.address, ← f.textOr? "token" standard.token,
    ← f.optionalText? "namespace", ← f.durationOr? "timeout" standard.timeout⟩

end Vault

end LiveConfig
