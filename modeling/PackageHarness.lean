import PackageHarness.Guarantees.Advisory
import PackageHarness.Guarantees.Answers
import PackageHarness.Guarantees.Applied
import PackageHarness.Guarantees.BothSides
import PackageHarness.Guarantees.Bypasses
import PackageHarness.Guarantees.Claimed
import PackageHarness.Guarantees.Confinement
import PackageHarness.Guarantees.Confirmed
import PackageHarness.Guarantees.Credentials
import PackageHarness.Guarantees.Decisions
import PackageHarness.Guarantees.Drained
import PackageHarness.Guarantees.Durable
import PackageHarness.Guarantees.Exits
import PackageHarness.Guarantees.Failed
import PackageHarness.Guarantees.Frugal
import PackageHarness.Guarantees.Gate
import PackageHarness.Guarantees.Heuristics
import PackageHarness.Guarantees.Holds
import PackageHarness.Guarantees.KeyValues
import PackageHarness.Guarantees.LongTokens
import PackageHarness.Guarantees.PhaseHistory
import PackageHarness.Guarantees.Readable
import PackageHarness.Guarantees.Reconciled
import PackageHarness.Guarantees.Removal
import PackageHarness.Guarantees.Retries
import PackageHarness.Guarantees.SettledCleanup
import PackageHarness.Guarantees.Shutdown
import PackageHarness.Guarantees.Stabilized
import PackageHarness.Guarantees.Supervised
import PackageHarness.Guarantees.Truncation
import PackageHarness.Guarantees.UrlSegments
import PackageHarness.Guarantees.Wakeups
