import Svs.Database.Query
import Svs.Database.RoundTrip
import Svs.Database.Serialisation
import Svs.Filesave.Coherence
import Svs.Filesave.Payload
import Svs.Filesave.Rings
import Svs.Filesave.SignatureBuffer
import Svs.Filesave.Splits
import Svs.Repository.Agreement
import Svs.Repository.Availability
import Svs.Repository.Chains
import Svs.Repository.Costs
import Svs.Repository.Creation
import Svs.Repository.Damage
import Svs.Repository.Finality
import Svs.Repository.Restart
import Svs.Repository.SignatureReaders
import Svs.Repository.Tiling
import Svs.Repository.Truthful
import Svs.Stream.ReadBack
