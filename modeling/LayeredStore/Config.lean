import LayeredStore.KeyOrder
import LayeredStore.Text.Quoted

namespace LayeredStore

/-!
# Configuration

* `Config` — the settings of a store, with their defaults;
* `Config.inspect` — the settings shown as a value, for diagnostics.
-/

/-- The settings of a store. -/
structure Config where
  /-- The path of the folder that holds the generations. -/
  basePath : String := "./strata_data"
  /-- The order of keys. -/
  order : KeyOrder := .lexicographic
  /-- The payload of the write buffer beyond which it is flushed; zero turns this
      off. -/
  flushThreshold : Nat := 1024 * 1024

namespace Config

/-- The settings shown as a value. -/
def inspect (config : Config) : String :=
  Text.group "Config"
    [("base_path", Text.quote config.basePath), ("comparator", config.order.name),
      ("flush_threshold_bytes", Text.number config.flushThreshold)]

end Config

end LayeredStore
