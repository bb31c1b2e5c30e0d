import LiveConfig.Rehearsal.Line
import LiveConfig.Rehearsal.Queries
import LiveConfig.Rehearsal.Session
import LiveConfig.Rehearsal.Stage
import LiveConfig.Settings
import LiveConfig.Store.Cell
import LiveConfig.Proofs.Store.Once
import LiveConfig.Proofs.Change.Signals
import LiveConfig.Proofs.Rehearsal.Silence
import LiveConfig.Proofs.Store.Layers
import LiveConfig.Proofs.Store.Arrival
import LiveConfig.Proofs.Store.Closing
import LiveConfig.Proofs.Kv.LongPoll
import LiveConfig.Proofs.Kv.Seed
import LiveConfig.Proofs.Kv.RoundTrip
import LiveConfig.Proofs.Text.Lower
import LiveConfig.Proofs.Tree.Lookup
import LiveConfig.Proofs.Store.Subtree
import LiveConfig.Proofs.Store.Spelling
import LiveConfig.Proofs.Store.Seeding
import LiveConfig.Proofs.Store.Override
import LiveConfig.Proofs.Tree.Relabel
import LiveConfig.Proofs.Kv.Update
import LiveConfig.Proofs.Text.Percent
import LiveConfig.Proofs.Http.Url
import LiveConfig.Proofs.Consul.Agent
import LiveConfig.Proofs.Consul.ReadBack
import LiveConfig.Proofs.Change.LastGood
import LiveConfig.Proofs.Kv.Backoff
import LiveConfig.Proofs.Number.Numeral
import LiveConfig.Proofs.Number.Double
import LiveConfig.Proofs.Number.Shortest
import LiveConfig.Proofs.Duration.Spans
import LiveConfig.Proofs.Value.Textual
import LiveConfig.Proofs.Value.Length
import LiveConfig.Proofs.Store.TextForm
import LiveConfig.Proofs.Store.Timeout
import LiveConfig.Proofs.Kv.Conflict
import LiveConfig.Proofs.Kv.Content
import LiveConfig.Proofs.Kv.WriteBack
import LiveConfig.Proofs.Rehearsal.Deliveries
import LiveConfig.Proofs.Store.Merged
import LiveConfig.Proofs.Tree.Variants
import LiveConfig.Proofs.Tree.Lossless
import LiveConfig.Proofs.Store.Lowered
import LiveConfig.Proofs.Store.Watching
import LiveConfig.Proofs.Store.Account
import LiveConfig.Proofs.Rehearsal.Blocking
