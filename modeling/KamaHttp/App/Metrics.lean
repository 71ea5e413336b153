import KamaHttp.Foundations.Bytes

/-!
# The counters

The counters the parts of the application share (`Metrics.h`). They are natural numbers here, and
`std::atomic<uint64_t>` in the source: the two differ once a counter has been raised 2^64 times.
-/

namespace KamaHttp

structure Metrics where
  shortenOk : ℕ := 0
  shortenBad : ℕ := 0
  redirectOk : ℕ := 0
  redirectMiss : ℕ := 0
  ratelimitDrops : ℕ := 0
  cacheHits : ℕ := 0
  cacheSets : ℕ := 0
  storeGetHit : ℕ := 0
  storeGetMiss : ℕ := 0
  storeSetnxOk : ℕ := 0
  storeSetnxConflict : ℕ := 0
  deriving DecidableEq

/-- A line of the text: the name of a counter and its value. -/
def Metrics.line (name : String) (value : ℕ) : Bytes :=
  bytes name ++ [32] ++ decimal value ++ [10]

/-- `prometheus`. -/
def Metrics.prometheus (m : Metrics) : Bytes :=
  bytes "# HELP url_shortener_store_get_hit Store GET hits\n" ++
    bytes "# TYPE url_shortener_store_get_hit counter\n" ++
    line "url_shortener_store_get_hit" m.storeGetHit ++
    bytes "# HELP url_shortener_store_get_miss Store GET misses\n" ++
    bytes "# TYPE url_shortener_store_get_miss counter\n" ++
    line "url_shortener_store_get_miss" m.storeGetMiss ++
    bytes "# HELP url_shortener_store_setnx_ok Store SETNX successes\n" ++
    bytes "# TYPE url_shortener_store_setnx_ok counter\n" ++
    line "url_shortener_store_setnx_ok" m.storeSetnxOk ++
    bytes "# HELP url_shortener_store_setnx_conflict Store SETNX conflicts\n" ++
    bytes "# TYPE url_shortener_store_setnx_conflict counter\n" ++
    line "url_shortener_store_setnx_conflict" m.storeSetnxConflict ++
    bytes "# HELP url_shortener_shorten_ok Total shorten success\n" ++
    bytes "# TYPE url_shortener_shorten_ok counter\n" ++
    line "url_shortener_shorten_ok" m.shortenOk ++
    bytes "# HELP url_shortener_redirect_ok Total redirects\n" ++
    bytes "# TYPE url_shortener_redirect_ok counter\n" ++
    line "url_shortener_redirect_ok" m.redirectOk ++
    line "url_shortener_redirect_miss" m.redirectMiss ++
    line "url_shortener_shorten_bad" m.shortenBad ++
    line "url_shortener_ratelimit_drops" m.ratelimitDrops ++
    line "url_shortener_cache_hits" m.cacheHits ++
    line "url_shortener_cache_sets" m.cacheSets

end KamaHttp
