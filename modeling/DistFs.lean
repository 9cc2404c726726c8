import DistFs.CText.Decimal
import DistFs.CText.Memory
import DistFs.NameSpace.Subtree
import DistFs.NameSpace.Preference
import DistFs.NameSpace.Parents
import DistFs.NameSpace.Removal
import DistFs.NameSpace.Saves
import DistFs.NameSpace.Accesses
import DistFs.NameSpace.Listing
import DistFs.Registry.Crashes
import DistFs.Registry.Latest
import DistFs.Registry.Deletion
import DistFs.Registry.Walks
import DistFs.Wire.Failures
import DistFs.Wire.Selection
import DistFs.Wire.Limits
import DistFs.Wire.Overruns
import DistFs.Wire.Monitor
import DistFs.Wire.Copying
import DistFs.Wire.Choice
import DistFs.Wire.FileTable
import DistFs.Wire.Routing
import DistFs.Wire.Receivers
import DistFs.Wire.Positions
import DistFs.Wire.RoundTrips
import DistFs.Runs.Probe
import DistFs.Runs.Matching
import DistFs.Runs.Simulation
import DistFs.Wire.Primary
import DistFs.Wire.RootOnly
import DistFs.Wire.Replications
import DistFs.Wire.Remote
import DistFs.Wire.Mount
import DistFs.Runs.Flight
import DistFs.Runs.Delivery
import DistFs.Runs.Administration
import DistFs.Runs.StartUp
